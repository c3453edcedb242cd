import IptvProxy.Cache.SingleFlight

/-!
# Refresh jobs

An entry whose key is registered should have a pending timer or an operation on its way to arm one
(`State.Tended`). A timer callback arms a timer however it ends, so a timer once armed is armed
again and again (`ticks_of_step`). `Warm`, `Purge` and a refill arm a timer only if they succeed,
and a publication arms no timer in the other processes. `every_entry_tended` says that only those
that find no timer leave an entry without a refresh job.
-/

namespace IptvProxy.Cache

open Agents Transition

variable {P : Type} [DecidableEq P] {s s' : State P} {i j : ℕ} {t u : Thread P} {o : Outcome}
  {fetched : Option Response} {key : String} {p : P}

/-- A timer of the key is pending. -/
def Manager.Armed (m : Manager) (key : String) : Prop :=
  ∃ tm, m.timers key = some tm ∧ tm.pending = true

/-- An operation at this point arms a timer of the key before it ends, unless it gives up. -/
def Pc.arms (key : String) : Pc → Prop
  | .getRegister spec (some _) => spec.key = key
  | .scheduleFromMeta spec _ _ => spec.key = key
  | .schedule spec _ _ => spec.key = key
  | .refillMissing spec => spec.key = key
  | .register spec _ _ => spec.key = key
  | .acquire spec _ => spec.key = key
  | .loadOld job => job.spec.key = key
  | .fetch job => job.spec.key = key
  | .writeChunk job _ _ => job.spec.key = key
  | .stamp job _ => job.spec.key = key
  | .swap job _ _ => job.spec.key = key
  | .releaseReader _ _ next => next.arms key
  | .cleanup _ _ _ _ _ next => next.arms key
  | .expire _ _ _ _ _ next => next.arms key
  | .unlock _ _ next => next.arms key
  | _ => False

/-- The key has a refresh job in the process, or is about to get one. -/
def State.Tended (s : State P) (p : P) (key : String) : Prop :=
  (s.mgr p).Armed key ∨ ∃ (j : ℕ) (u : Thread P), s.threads[j]? = some u ∧ u.pid = p ∧ u.pc.arms key

/-! ## Giving up -/

/-- The next section ends a `Warm`, a `Purge` or a refill without a timer: it does not get the
lock, a command or `Fetch` fails, the response is rejected, a chunk is missing, or a refill finds
an entry. -/
def Pc.GivesUp (s : State P) (o : Outcome) (fetched : Option Response) : Pc → Prop
  | .acquire spec operation => operation ≠ .refresh ∧
      (o.replied = false ∨ s.redis.locks.has s.now spec.key = true)
  | .loadOld job => job.operation ≠ .refresh ∧
      if job.operation = .fill then
        o.replied = true ∧ (s.redis.loadManifest job.spec.key).isSome = true
      else o.replied = false
  | .fetch job => job.operation ≠ .refresh ∧ (fetched.all (suspiciousEmpty job.old)) = true
  | .writeChunk job _ _ => job.operation ≠ .refresh ∧ o.replied = false
  | .swap job staged _ => job.operation ≠ .refresh ∧
      (o ≠ .ok ∨ stagedChunksExist s.redis.chunks s.now job.spec.key staged.generation
        (chunkCount staged.response.body) = false)
  | _ => False

/-- The thread gives up at its next section. -/
abbrev Thread.GivesUp (s : State P) (t : Thread P) (o : Outcome) (fetched : Option Response) :
    Prop := t.pc.GivesUp s (t.under s.now o) fetched

/-- The next section of the thread is a publish script for the key that is executed. -/
def Thread.Publishes (s : State P) (t : Thread P) (o : Outcome) (key : String) : Prop :=
  match t.pc with
  | .swap job staged _ => job.spec.key = key ∧ (t.under s.now o).applied = true ∧
      stagedChunksExist s.redis.chunks s.now job.spec.key staged.generation
        (chunkCount staged.response.body) = true
  | _ => False

/-- The next section of the thread does not arm the timer that the key needs in the process: an
operation of the process on the key gives up, or another process publishes the key. -/
def Thread.Neglects (s : State P) (t : Thread P) (o : Outcome) (fetched : Option Response) (p : P)
    (key : String) : Prop :=
  (t.pid = p ∧ t.pc.arms key ∧ t.GivesUp s o fetched) ∨ (t.pid ≠ p ∧ t.Publishes s o key)

/-- Nobody starts a `MigrateLegacy`, and a key that is registered and has an entry is neglected by
a section only in a process that has already armed a timer of it. -/
def Action.tends (s : State P) : Action P → Prop
  | .start _ call _ => call.plain
  | .run i o fetched => ∀ t p key, s.threads[i]? = some t →
      ((s.mgr p).specs key).isSome = true →
      ((s.redis.loadManifest key).isSome = true ∨ t.Publishes s o key) →
      t.Neglects s o fetched p key → ((s.mgr p).timers key).isSome = true
  | _ => True

/-! ## Specs and timers are kept under their keys -/

/-- The next section may put the spec into the memory of its process. -/
def Pc.Puts (spec : Spec) : Pc → Prop
  | .getRegister spec' _ => spec' = spec
  | .schedule spec' _ _ => spec' = spec
  | .register spec' _ _ => spec' = spec
  | .warm spec' => spec' = spec
  | .migrateRegister _ spec' => spec' = spec
  | _ => False

/-- Every spec in the memory of a process, with its key. -/
structure Manager.All (Q : String → Spec → Prop) (m : Manager) : Prop where
  /-- the registered ones -/
  specs : ∀ {key spec}, m.specs key = some spec → Q key spec
  /-- those of the timers -/
  timers : ∀ {key tm}, m.timers key = some tm → Q key tm.spec

/-- Specs and timers are found under the key of the spec. -/
abbrev Manager.Keyed (m : Manager) : Prop := m.All fun key spec => spec.key = key

namespace Manager

variable {m : Manager} {spec : Spec} {Q : String → Spec → Prop}

theorem All.register (h : m.All Q) (hspec : Q spec.key spec) : (m.register spec).All Q := by
  refine ⟨fun {key spec'} hspec' => ?_, h.timers⟩
  change Function.update m.specs spec.key (some spec) key = some spec' at hspec'
  by_cases hkey : key = spec.key
  · subst hkey
    rw [Function.update_self] at hspec'
    rw [← Option.some.inj hspec']
    exact hspec
  · rw [Function.update_of_ne hkey] at hspec'
    exact h.specs hspec'

theorem All.registerIfAbsent (h : m.All Q) (hspec : Q spec.key spec) :
    (m.registerIfAbsent spec).2.All Q ∧ Q spec.key (m.registerIfAbsent spec).1 := by
  rw [Manager.registerIfAbsent]
  split
  · next existing hexisting => exact ⟨h, h.specs hexisting⟩
  · exact ⟨h.register hspec, hspec⟩

theorem All.schedule (h : m.All Q) (hspec : Q spec.key spec) (now : ℕ) (delay : ℤ) :
    (m.schedule now spec delay).All Q := by
  refine ⟨h.specs, fun {key tm} htm => ?_⟩
  change Function.update m.timers spec.key _ key = some tm at htm
  by_cases hkey : key = spec.key
  · subst hkey
    rw [Function.update_self] at htm
    rw [← Option.some.inj htm]
    exact hspec
  · rw [Function.update_of_ne hkey] at htm
    exact h.timers htm

theorem All.forget (h : m.All Q) (key : String) : (m.forget key).All Q := by
  refine ⟨fun {key' spec} hspec => ?_, fun {key' tm} htm => ?_⟩
  · change Function.update m.specs key none key' = some spec at hspec
    by_cases hkey : key' = key
    · rw [hkey, Function.update_self] at hspec
      cases hspec
    · rw [Function.update_of_ne hkey] at hspec
      exact h.specs hspec
  · change Function.update m.timers key none key' = some tm at htm
    by_cases hkey : key' = key
    · rw [hkey, Function.update_self] at htm
      cases htm
    · rw [Function.update_of_ne hkey] at htm
      exact h.timers htm

theorem register_isSome (m : Manager) (spec : Spec) :
    ((m.register spec).specs spec.key).isSome = true := by
  rw [show (m.register spec).specs spec.key = some spec from Function.update_self ..]
  rfl

theorem registerIfAbsent_isSome (m : Manager) (spec : Spec) :
    ((m.registerIfAbsent spec).2.specs spec.key).isSome = true := by
  rw [Manager.registerIfAbsent]
  split
  · next existing hspec =>
    rw [hspec]
    rfl
  · exact register_isSome m spec

theorem unpin_same (m : Manager) (l : LeaseKey) :
    (m.unpin l).1.specs = m.specs ∧ (m.unpin l).1.timers = m.timers := by
  rw [Manager.unpin]
  split <;> exact ⟨rfl, rfl⟩

theorem armed_schedule (m : Manager) (now : ℕ) (spec : Spec) (delay : ℤ) :
    (m.schedule now spec delay).Armed spec.key :=
  ⟨_, Function.update_self .., rfl⟩

end Manager

section All

variable {Q : String → Spec → Prop}

/-- Replacing the memory of one process. -/
theorem all_setMgr {m : Manager} (hall : ∀ q, (s.mgr q).All Q) (hm : m.All Q) :
    ∀ q, (Function.update s.mgr p m q).All Q := by
  intro q
  by_cases hq : q = p
  · subst hq
    rw [Function.update_self]
    exact hm
  · rw [Function.update_of_ne hq]
    exact hall q

/-- What the specs that a section may put into the memory have in common, all specs there have. -/
theorem Ran.all (h : Ran s i t o s') (hall : ∀ q, (s.mgr q).All Q)
    (hnew : ∀ spec, t.pc.Puts spec → Q spec.key spec) : ∀ q, (s'.mgr q).All Q := by
  have hm := hall t.pid
  have hunlocked : Manager.All Q { s.mgr t.pid with mu := none } := ⟨hm.specs, hm.timers⟩
  cases h with
  | pin => exact all_setMgr hall ⟨hm.specs, hm.timers⟩
  | @unpin key g next =>
    have hsame := Manager.unpin_same (s.mgr t.pid) (key, g)
    refine all_setMgr hall ⟨?_, ?_⟩
    · rw [hsame.1]
      exact hm.specs
    · rw [hsame.2]
      exact hm.timers
  | registerHit hpc | registerMiss hpc | warm hpc =>
    refine all_setMgr hall (hm.registerIfAbsent (hnew _ ?_)).1
    rw [hpc]
    exact rfl
  | schedule hpc =>
    refine all_setMgr hall (hm.schedule (hnew _ ?_) _ _)
    rw [hpc]
    exact rfl
  | register hpc | migrateRegister hpc =>
    refine all_setMgr hall (hm.register (hnew _ ?_))
    rw [hpc]
    exact rfl
  | duplicateForget => exact all_setMgr hall (hm.forget _)
  | acquireFailed | acquired | removeAcquireFailed | removeAcquired =>
    intro q
    simp only [State.goto, State.setThread, State.attempted_mgr]
    exact hall q
  | swapWaits | removeLoad | removeDelFailed | removeDelLost =>
    exact all_setMgr hall ⟨hm.specs, hm.timers⟩
  | removeEmpty | removeClears => exact all_setMgr hall (hunlocked.forget _)
  | removeWaits =>
    exact all_setMgr hall ⟨(hunlocked.forget _).specs, (hunlocked.forget _).timers⟩
  | _ => exact hall

theorem Steps.all {a : Action P} (h : Steps s a s') (hall : ∀ q, (s.mgr q).All Q)
    (hnew : ∀ t ∈ s.threads, ∀ spec, t.pc.Puts spec → Q spec.key spec) :
    ∀ q, (s'.mgr q).All Q := by
  cases h with
  | run hi h => exact h.all hall (hnew _ (List.mem_of_getElem? hi))
  | @fire p key tm htm =>
    refine all_setMgr hall ⟨(hall p).specs, fun {key' tm'} htm' => ?_⟩
    change Function.update (s.mgr p).timers key _ key' = some tm' at htm'
    by_cases hkey : key' = key
    · subst hkey
      rw [Function.update_self] at htm'
      rw [← Option.some.inj htm']
      change Q key' tm.spec
      exact (hall p).timers htm
    · rw [Function.update_of_ne hkey] at htm'
      exact (hall p).timers htm'
  | restart => exact all_setMgr hall ⟨fun h => (nomatch h), fun h => (nomatch h)⟩
  | _ => exact hall

theorem Ran.keyed (h : Ran s i t o s') (hall : ∀ q, (s.mgr q).Keyed) : ∀ q, (s'.mgr q).Keyed :=
  h.all hall fun _ _ => rfl

theorem Steps.keyed {a : Action P} (h : Steps s a s') (hall : ∀ q, (s.mgr q).Keyed) :
    ∀ q, (s'.mgr q).Keyed :=
  h.all hall fun _ _ _ _ => rfl

end All

/-! ## What a section does to a key -/

/-- The section registers the key, if nobody has. -/
def Pc.Registers (key : String) : Pc → Prop
  | .getRegister spec _ => spec.key = key
  | .register spec _ _ => spec.key = key
  | .warm spec => spec.key = key
  | .migrateRegister _ spec => spec.key = key
  | _ => False

/-- The section arms a timer of the key. -/
def Pc.Schedules (key : String) : Pc → Prop
  | .schedule spec _ _ => spec.key = key
  | _ => False

/-- The section forgets the key. -/
def Pc.Forgets (o : Outcome) (key : String) : Pc → Prop
  | .removeDel key' _ _ => key' = key ∧ o.replied = true
  | .duplicateForget key' => key' = key
  | _ => False

/-- What a section of the thread does to a key in the memory of a process. -/
inductive Thread.Updates (t : Thread P) (o : Outcome) (key : String) (q : P) (m m' : Manager) :
    Prop where
  /-- nothing -/
  | same (hspecs : m'.specs key = m.specs key) (htimers : m'.timers key = m.timers key)
  /-- it registers the key -/
  | registers (hq : t.pid = q) (hpc : t.pc.Registers key) (hspecs : (m'.specs key).isSome = true)
      (htimers : m'.timers key = m.timers key)
  /-- it arms a timer -/
  | arms (hq : t.pid = q) (hpc : t.pc.Schedules key) (hspecs : m'.specs key = m.specs key)
      (htimers : m'.Armed key)
  /-- it forgets the key -/
  | forgets (hq : t.pid = q) (hpc : t.pc.Forgets o key) (hspecs : m'.specs key = none)
      (htimers : m'.timers key = none)

omit [DecidableEq P] in
theorem Thread.updates_forget {m m' : Manager} {key' : String} (hpc : t.pc.Forgets o key')
    (hspecs : m'.specs = (m.forget key').specs) (htimers : m'.timers = (m.forget key').timers) :
    t.Updates o key t.pid m m' := by
  by_cases hkey : key = key'
  · subst hkey
    exact .forgets rfl hpc (by rw [hspecs]; exact Function.update_self ..)
      (by rw [htimers]; exact Function.update_self ..)
  · exact .same (by rw [hspecs]; exact Function.update_of_ne hkey ..)
      (by rw [htimers]; exact Function.update_of_ne hkey ..)

omit [DecidableEq P] in
theorem Thread.updates_register {m : Manager} {spec : Spec} (hpc : t.pc.Registers spec.key) :
    t.Updates o key t.pid m (m.register spec) := by
  by_cases hkey : key = spec.key
  · subst hkey
    exact .registers rfl hpc (Manager.register_isSome m spec) rfl
  · exact .same (Function.update_of_ne hkey ..) rfl

omit [DecidableEq P] in
theorem Thread.updates_registerIfAbsent {m : Manager} {spec : Spec}
    (hpc : t.pc.Registers spec.key) : t.Updates o key t.pid m (m.registerIfAbsent spec).2 := by
  rw [Manager.registerIfAbsent]
  split
  · exact .same rfl rfl
  · exact updates_register hpc

theorem Ran.updates (h : Ran s i t o s') (key : String) (q : P) :
    t.Updates (t.under s.now o) key q (s.mgr q) (s'.mgr q) := by
  have hset : ∀ {m : Manager}, t.Updates (t.under s.now o) key t.pid (s.mgr t.pid) m →
      t.Updates (t.under s.now o) key q (s.mgr q) (Function.update s.mgr t.pid m q) := by
    intro m hm
    by_cases hq : q = t.pid
    · subst hq
      rw [Function.update_self]
      exact hm
    · rw [Function.update_of_ne hq]
      exact .same rfl rfl
  cases h with
  | pin | swapWaits | removeLoad | removeDelFailed | removeDelLost => exact hset (.same rfl rfl)
  | @unpin key' g next =>
    have hsame := Manager.unpin_same (s.mgr t.pid) (key', g)
    exact hset (.same (by rw [hsame.1]) (by rw [hsame.2]))
  | registerHit hpc | registerMiss hpc | warm hpc =>
    refine hset (Thread.updates_registerIfAbsent ?_)
    rw [hpc]
    exact rfl
  | register hpc | migrateRegister hpc =>
    refine hset (Thread.updates_register ?_)
    rw [hpc]
    exact rfl
  | @schedule spec delay next hpc =>
    refine hset ?_
    by_cases hkey : key = spec.key
    · subst hkey
      refine .arms rfl ?_ rfl (Manager.armed_schedule ..)
      rw [hpc]
      exact rfl
    · exact .same rfl (Function.update_of_ne hkey ..)
  | removeEmpty hpc _ ho | removeClears hpc _ ho | removeWaits hpc _ ho =>
    refine hset (Thread.updates_forget ?_ rfl rfl)
    rw [hpc]
    exact ⟨rfl, ho⟩
  | duplicateForget hpc =>
    refine hset (Thread.updates_forget ?_ rfl rfl)
    rw [hpc]
    exact rfl
  | acquireFailed | acquired | removeAcquireFailed | removeAcquired =>
    simp only [State.goto, State.setThread, State.attempted_mgr]
    exact .same rfl rfl
  | _ => exact .same rfl rfl

/-- Timers are replaced by timers; only what is forgotten loses its timer. -/
theorem Ran.armed (h : Ran s i t o s') (hspec : ((s'.mgr p).specs key).isSome = true)
    (ha : (s.mgr p).Armed key) : (s'.mgr p).Armed key := by
  cases h.updates key p with
  | same _ htimers | registers _ _ _ htimers =>
    rw [Manager.Armed, htimers]
    exact ha
  | arms _ _ _ htimers => exact htimers
  | forgets _ _ hspecs =>
    rw [hspecs] at hspec
    cases hspec

/-- An entry that was not there was published by this section. -/
theorem Ran.stored_or_published (h : Ran s i t o s')
    (hm : (s'.redis.loadManifest key).isSome = true) :
    (s.redis.loadManifest key).isSome = true ∨ t.Publishes s o key := by
  rw [Redis.loadManifest] at hm
  rcases h.hash with hhash | ⟨job, staged, fetchedAt, hpc, ho, hexist, hhash⟩ | ⟨key', -, hhash⟩
  · rw [hhash] at hm
    exact .inl hm
  · by_cases hkey : key = job.spec.key
    · refine .inr ?_
      rw [Thread.Publishes, hpc]
      exact ⟨hkey.symm, ho, hexist⟩
    · rw [hhash, Function.update_of_ne hkey] at hm
      exact .inl hm
  · rw [hhash] at hm
    by_cases hkey : key = key'
    · rw [hkey, Function.update_self] at hm
      cases hm
    · rw [Function.update_of_ne hkey] at hm
      exact .inl hm

/-! ## On the way to a timer -/

theorem Pc.arms_cleanupGeneration {next : Pc} (h : next.arms key) (key' : String) (g n : ℕ)
    (background : Bool) : (Pc.cleanupGeneration key' g n background next).arms key := by
  rw [Pc.cleanupGeneration]
  split <;> exact h

theorem Pc.arms_expireGenerationFallback {next : Pc} (h : next.arms key) (key' : String)
    (g n : ℕ) (background : Bool) :
    (Pc.expireGenerationFallback key' g n background next).arms key := by
  rw [Pc.expireGenerationFallback]
  split <;> exact h

/-- A timer callback that fails arms a timer. -/
theorem Job.arms_failed {job : Job} (hop : job.operation = .refresh) (hk : job.spec.key = key)
    (e : Error) : (job.failed e).arms key := by
  rw [Job.failed, hop]
  exact hk

theorem Job.arms_published {job : Job} (hp : job.operation.plain) (hk : job.spec.key = key) :
    job.published.arms key := by
  rw [Job.published_of_plain hp]
  exact hk

theorem Job.arms_staging {job : Job} (hk : job.spec.key = key) (staged : Staged) (n : ℕ) :
    (job.staging staged n).arms key := by
  rw [Job.staging]
  split <;> exact hk

omit [DecidableEq P] in
theorem Moves.arms {pc pc' : Pc} (h : Moves s t o pc pc') (hpc : t.pc = pc) (hp : pc.plain)
    (hk : pc.arms key) (hno : ¬ t.GivesUp s o fetched)
    (hrest : ∀ job, pc ≠ .loadOld job ∧ pc ≠ .fetch job) : pc'.arms key := by
  cases h with
  | scheduleFromMeta | stamp | unlockFailed => exact hk
  | cleanupFailed | expireFailed =>
    split <;> exact hk
  | @loadOldStop job | @loadOldFill job | @loadOldFailed job | @loadOld job =>
    exact absurd rfl (hrest job).1
  | @fetchFailed job => exact absurd rfl (hrest job).2
  | @writeChunkFailed job staged n ho =>
    by_cases hop : job.operation = .refresh
    · exact Pc.arms_cleanupGeneration (Job.arms_failed hop hk _) ..
    · rw [Thread.GivesUp, hpc] at hno
      refine absurd ⟨hop, ?_⟩ hno
      by_contra hreplied
      rw [Outcome.applied_of_replied (eq_true_of_ne_false hreplied)] at ho
      cases ho
  | @swapFailed job staged fetchedAt e ho =>
    by_cases hop : job.operation = .refresh
    · exact Pc.arms_cleanupGeneration (Job.arms_failed hop hk _) ..
    · rw [Thread.GivesUp, hpc] at hno
      refine absurd ⟨hop, ho.imp_left fun ho hok => ?_⟩ hno
      rw [hok] at ho
      cases ho
  | _ => exact hk.elim

section StepThread

variable {spec : Spec} {operation : Operation} {job : Job}

omit [DecidableEq P] in
theorem arms_stepAcquire (hi : s.threads[i]? = some t) (hpc : t.pc = .acquire spec operation)
    (hk : spec.key = key) (hno : ¬ t.GivesUp s o fetched) :
    ∃ u, (stepAcquire s i t o spec operation).threads[i]? = some u ∧ u.pid = t.pid ∧
      u.pc.arms key := by
  rw [Thread.GivesUp, hpc] at hno
  have hset : ∀ {s₁ : State P} {u : Thread P}, s₁.threads = s.threads → u.pid = t.pid →
      u.pc.arms key → ∃ u', (s₁.setThread i u).threads[i]? = some u' ∧ u'.pid = t.pid ∧
        u'.pc.arms key := by
    intro s₁ u hs₁ hpid hu
    refine ⟨u, ?_, hpid, hu⟩
    change (s₁.threads.set i u)[i]? = some u
    rw [hs₁]
    exact getElem?_set_of_some hi
  have hthreads : ∀ c : Bool, (if c then s.bumpID.setLocks (s.redis.locks.setNX s.now spec.key
      s.nextID (s.now + lockTTL)) else s.bumpID).threads = s.threads := by
    intro c
    split <;> rfl
  have hfailed : operation = .refresh → ∀ e, (operation.failed spec e).arms key := by
    rintro rfl e
    exact hk
  rw [stepAcquire]
  split
  · next ho =>
    refine hset (hthreads _) rfl (hfailed ?_ _)
    by_contra hop
    exact hno ⟨hop, .inl ho⟩
  · split
    · next hbusy =>
      refine hset (hthreads _) rfl (hfailed ?_ _)
      by_contra hop
      exact hno ⟨hop, .inr hbusy⟩
    · exact hset (hthreads _) rfl hk

omit [DecidableEq P] in
theorem arms_stepLoadOld (hi : s.threads[i]? = some t) (hpc : t.pc = .loadOld job)
    (hk : job.spec.key = key) (hno : ¬ t.GivesUp s o fetched) :
    ∃ u, (stepLoadOld s i t o job).threads[i]? = some u ∧ u.pid = t.pid ∧ u.pc.arms key := by
  rw [Thread.GivesUp, hpc, Pc.GivesUp] at hno
  have hset : ∀ {pc : Pc}, pc.arms key →
      ∃ u, (s.goto i t pc).threads[i]? = some u ∧ u.pid = t.pid ∧ u.pc.arms key :=
    fun hpc => ⟨_, getElem?_set_of_some hi, rfl, hpc⟩
  rw [stepLoadOld]
  split
  · next hop =>
    rw [hop, if_pos rfl] at hno
    split
    · next hfound =>
      rw [Bool.and_eq_true] at hfound
      exact absurd ⟨by decide, hfound⟩ hno
    · exact hset hk
  · next hop =>
    split
    · exact hset hk
    · next ho =>
      refine hset (Job.arms_failed ?_ hk _)
      by_contra hrefresh
      rw [if_neg hop] at hno
      exact hno ⟨hrefresh, Bool.eq_false_iff.mpr ho⟩

omit [DecidableEq P] in
theorem arms_stepFetch (hi : s.threads[i]? = some t) (hpc : t.pc = .fetch job)
    (hk : job.spec.key = key) (hno : ¬ t.GivesUp s o fetched) :
    ∃ u, (stepFetch s i t fetched job).threads[i]? = some u ∧ u.pid = t.pid ∧ u.pc.arms key := by
  rw [Thread.GivesUp, hpc] at hno
  have hset : ∀ {pc : Pc}, pc.arms key →
      ∃ u, (s.goto i t pc).threads[i]? = some u ∧ u.pid = t.pid ∧ u.pc.arms key :=
    fun hpc => ⟨_, getElem?_set_of_some hi, rfl, hpc⟩
  unfold stepFetch
  split
  · refine hset (Job.arms_failed ?_ hk _)
    by_contra hop
    exact hno ⟨hop, rfl⟩
  · next fresh =>
    split
    · next hempty =>
      refine hset (Job.arms_failed ?_ hk _)
      by_contra hop
      exact hno ⟨hop, hempty⟩
    · exact ⟨_, getElem?_set_of_some hi, rfl, Job.arms_staging hk ..⟩

end StepThread

/-- An operation on its way to a timer goes on, arms it or gives up. -/
theorem arms_of_stepThread (h : stepThread s i t o fetched = some s')
    (hi : s.threads[i]? = some t) (hp : t.pc.plain) (hkeyed : (s.mgr t.pid).Keyed)
    (hk : t.pc.arms key) (hno : ¬ t.GivesUp s o fetched) :
    (s'.mgr t.pid).Armed key ∨
      ∃ u, s'.threads[i]? = some u ∧ u.pid = t.pid ∧ u.pc.arms key := by
  by_cases hacquire : ∃ spec operation, t.pc = .acquire spec operation
  · obtain ⟨spec, operation, hpc⟩ := hacquire
    rw [hpc] at hk
    simp only [stepThread, hpc] at h
    obtain rfl := Option.some.inj h
    exact .inr (arms_stepAcquire hi hpc hk hno)
  by_cases hload : ∃ job, t.pc = .loadOld job
  · obtain ⟨job, hpc⟩ := hload
    rw [hpc] at hk
    simp only [stepThread, hpc] at h
    obtain rfl := Option.some.inj h
    exact .inr (arms_stepLoadOld hi hpc hk hno)
  by_cases hfetch : ∃ job, t.pc = .fetch job
  · obtain ⟨job, hpc⟩ := hfetch
    rw [hpc] at hk
    simp only [stepThread, hpc] at h
    obtain rfl := Option.some.inj h
    exact .inr (arms_stepFetch hi hpc hk hno)
  have hset : ∀ {u : Thread P}, s'.threads = s.threads.set i u → u.pid = t.pid → u.pc.arms key →
      (s'.mgr t.pid).Armed key ∨
        ∃ u, s'.threads[i]? = some u ∧ u.pid = t.pid ∧ u.pc.arms key := by
    intro u hu hpid harms
    exact .inr ⟨u, getElem?_of_eq_set hu hi, hpid, harms⟩
  -- a replacement that does not give up has published
  have hswap : ∀ {job : Job} {staged : Staged} {fetchedAt : ℕ},
      t.pc = .swap job staged fetchedAt → job.published.arms key := by
    intro job staged fetchedAt hpc
    rw [hpc] at hp hk
    exact Job.arms_published hp hk
  have hr := Ran.of_stepThread h
  cases hr with
  | move hpc hm =>
    rw [hpc] at hp hk
    refine hset rfl rfl (hm.arms hpc hp hk hno fun job => ⟨?_, ?_⟩)
    · rintro rfl
      exact hload ⟨job, hpc⟩
    · rintro rfl
      exact hfetch ⟨job, hpc⟩
  | @unpin key' g next hpc =>
    rw [hpc] at hk
    have hnext : next.arms key := hk
    refine hset rfl rfl ?_
    dsimp only
    split
    · exact hnext
    · exact Pc.arms_cleanupGeneration hnext ..
  | cleanup hpc | expire hpc =>
    rw [hpc] at hk
    refine hset rfl rfl ?_
    dsimp only
    split <;> exact hk
  | registerHit hpc =>
    rw [hpc] at hk
    exact hset rfl rfl ((hkeyed.registerIfAbsent rfl).2.trans hk)
  | @schedule spec delay next hpc =>
    rw [hpc] at hk
    refine .inl ?_
    change (Function.update s.mgr t.pid _ t.pid).Armed key
    rw [Function.update_self, ← show spec.key = key from hk]
    exact Manager.armed_schedule _ _ spec delay
  | refill hpc | register hpc =>
    rw [hpc] at hk
    exact hset rfl rfl hk
  | acquireFailed hpc | acquired hpc => exact absurd ⟨_, _, hpc⟩ hacquire
  | stage hpc => exact absurd ⟨_, hpc⟩ hfetch
  | @writeChunk job staged n hpc ho =>
    rw [hpc] at hk
    refine hset rfl rfl ?_
    dsimp only
    split
    · exact Job.arms_staging hk ..
    · next hreplied =>
      refine Pc.arms_cleanupGeneration (Job.arms_failed ?_ hk _) ..
      by_contra hop
      rw [Thread.GivesUp, hpc] at hno
      exact hno ⟨hop, Bool.eq_false_iff.mpr hreplied⟩
  | @swapLost job staged fetchedAt hpc hmu ho =>
    rw [hpc] at hk
    refine hset rfl rfl (Pc.arms_cleanupGeneration (Job.arms_failed ?_ hk _) ..)
    by_contra hop
    rw [Thread.GivesUp, hpc] at hno
    refine hno ⟨hop, .inl ?_⟩
    rw [ho]
    exact Outcome.noConfusion
  | swapFirst hpc => exact hset rfl rfl (hswap hpc)
  | swapWaits hpc => exact hset rfl rfl (Pc.arms_expireGenerationFallback (hswap hpc) ..)
  | swapClears hpc => exact hset rfl rfl (Pc.arms_cleanupGeneration (hswap hpc) ..)
  | unlock hpc =>
    rw [hpc] at hk
    exact hset rfl rfl hk
  | pin hpc | registerMiss hpc | warm hpc | purge hpc =>
    rw [hpc] at hk
    exact hk.elim
  | removeAcquireFailed hpc | removeAcquired hpc | removeLoad hpc | removeDelFailed hpc =>
    rw [hpc] at hk
    exact hk.elim
  | removeDelLost hpc | removeEmpty hpc | removeWaits hpc | removeClears hpc =>
    rw [hpc] at hk
    exact hk.elim
  | migratePublish hpc | migrateRegister hpc | duplicateForget hpc | duplicateDel hpc =>
    rw [hpc] at hp
    exact hp.elim

/-- After a section that registers a key the key is registered, and its thread goes on to arm a
timer or starts somebody who does. -/
theorem Ran.of_registers (h : Ran s i t o s') (hi : s.threads[i]? = some t)
    (hkeyed : (s.mgr t.pid).Keyed) (hk : t.pc.Registers key) :
    ((s'.mgr t.pid).specs key).isSome = true ∧ (t.pc.plain → s'.Tended t.pid key) := by
  have hset : ∀ {u : Thread P}, s'.threads = s.threads.set i u → u.pid = t.pid →
      u.pc.arms key → s'.Tended t.pid key := by
    intro u hu hpid harms
    exact .inr ⟨i, u, getElem?_of_eq_set hu hi, hpid, harms⟩
  have hspecs : ∀ {m : Manager} {spec : Spec}, s'.mgr = Function.update s.mgr t.pid m →
      spec.key = key → (m.specs spec.key).isSome = true →
      ((s'.mgr t.pid).specs key).isSome = true := by
    rintro m spec hmgr rfl hspec
    rw [hmgr, Function.update_self]
    exact hspec
  cases h with
  | registerHit hpc | warm hpc =>
    rw [hpc] at hk
    exact ⟨hspecs rfl hk (Manager.registerIfAbsent_isSome ..),
      fun _ => hset rfl rfl ((hkeyed.registerIfAbsent rfl).2.trans hk)⟩
  | registerMiss hpc =>
    rw [hpc] at hk
    exact ⟨hspecs rfl hk (Manager.registerIfAbsent_isSome ..), fun _ =>
      .inr ⟨_, _, List.getElem?_concat_length, rfl, (hkeyed.registerIfAbsent rfl).2.trans hk⟩⟩
  | register hpc =>
    rw [hpc] at hk
    exact ⟨hspecs rfl hk (Manager.register_isSome ..), fun _ => hset rfl rfl hk⟩
  | migrateRegister hpc =>
    rw [hpc] at hk ⊢
    exact ⟨hspecs rfl hk (Manager.register_isSome ..), False.elim⟩
  | move hpc hm =>
    rw [hpc] at hk
    cases hm <;> exact hk.elim
  | pin hpc | unpin hpc | cleanup hpc | expire hpc | schedule hpc | refill hpc | purge hpc =>
    rw [hpc] at hk
    exact hk.elim
  | acquireFailed hpc | acquired hpc | stage hpc | writeChunk hpc | swapLost hpc | swapFirst hpc =>
    rw [hpc] at hk
    exact hk.elim
  | swapWaits hpc | swapClears hpc | unlock hpc | removeAcquireFailed hpc | removeAcquired hpc =>
    rw [hpc] at hk
    exact hk.elim
  | removeLoad hpc | removeDelFailed hpc | removeDelLost hpc | removeEmpty hpc | removeWaits hpc =>
    rw [hpc] at hk
    exact hk.elim
  | removeClears hpc | migratePublish hpc | duplicateForget hpc | duplicateDel hpc =>
    rw [hpc] at hk
    exact hk.elim

theorem Ran.registers (h : Ran s i t o s') (hi : s.threads[i]? = some t) (hp : t.pc.plain)
    (hkeyed : (s.mgr t.pid).Keyed) (hspec : ((s'.mgr p).specs key).isSome = true) :
    ((s.mgr p).specs key).isSome = true ∨ s'.Tended p key := by
  cases h.updates key p with
  | same hspecs | arms _ _ hspecs =>
    rw [hspecs] at hspec
    exact .inl hspec
  | registers hq hpc =>
    subst hq
    exact .inr ((h.of_registers hi hkeyed hpc).2 hp)
  | forgets _ _ hspecs =>
    rw [hspecs] at hspec
    cases hspec

/-! ## A timer that was armed is armed again -/

/-- A timer callback of the key on its way to the next timer, or an operation about to arm one. -/
def Pc.rearms (key : String) : Pc → Prop
  | .schedule spec _ _ => spec.key = key
  | .acquire spec operation => operation = .refresh ∧ spec.key = key
  | .loadOld job => job.operation = .refresh ∧ job.spec.key = key
  | .fetch job => job.operation = .refresh ∧ job.spec.key = key
  | .writeChunk job _ _ => job.operation = .refresh ∧ job.spec.key = key
  | .stamp job _ => job.operation = .refresh ∧ job.spec.key = key
  | .swap job _ _ => job.operation = .refresh ∧ job.spec.key = key
  | .releaseReader _ _ next => next.rearms key
  | .cleanup _ _ _ _ _ next => next.rearms key
  | .expire _ _ _ _ _ next => next.rearms key
  | .unlock _ _ next => next.rearms key
  | _ => False

/-- A timer of the key is pending, or its callback is on its way to the next one. -/
def State.Ticks (s : State P) (p : P) (key : String) : Prop :=
  (s.mgr p).Armed key ∨
    ∃ (j : ℕ) (u : Thread P), s.threads[j]? = some u ∧ u.pid = p ∧ u.pc.rearms key

theorem Pc.arms_of_rearms {pc : Pc} (h : pc.rearms key) : pc.arms key := by
  induction pc with
  | schedule => exact h
  | acquire | loadOld | fetch | writeChunk | stamp | swap => exact h.2
  | releaseReader _ _ next ih | cleanup _ _ _ _ _ next ih | expire _ _ _ _ _ next ih
  | unlock _ _ next ih => exact ih h
  | _ => exact h.elim

theorem Pc.rearms_cleanupGeneration {next : Pc} (h : next.rearms key) (key' : String) (g n : ℕ)
    (background : Bool) : (Pc.cleanupGeneration key' g n background next).rearms key := by
  rw [Pc.cleanupGeneration]
  split <;> exact h

theorem Pc.rearms_expireGenerationFallback {next : Pc} (h : next.rearms key) (key' : String)
    (g n : ℕ) (background : Bool) :
    (Pc.expireGenerationFallback key' g n background next).rearms key := by
  rw [Pc.expireGenerationFallback]
  split <;> exact h

section Job

variable {job : Job}

theorem Job.rearms_failed (hk : job.operation = .refresh ∧ job.spec.key = key) (e : Error) :
    (job.failed e).rearms key := by
  rw [Job.failed, hk.1]
  exact hk.2

theorem Job.rearms_published (hk : job.operation = .refresh ∧ job.spec.key = key) :
    job.published.rearms key := by
  rw [Job.published, hk.1]
  exact hk.2

theorem Job.rearms_staging (hk : job.operation = .refresh ∧ job.spec.key = key) (staged : Staged)
    (n : ℕ) : (job.staging staged n).rearms key := by
  rw [Job.staging]
  split <;> exact hk

end Job

omit [DecidableEq P] in
theorem Moves.rearms {pc pc' : Pc} (h : Moves s t o pc pc') (hk : pc.rearms key) :
    pc'.rearms key := by
  cases h with
  | cleanupFailed | expireFailed =>
    split <;> exact hk
  | loadOldStop hop | loadOldFill hop =>
    rw [Pc.rearms, hop] at hk
    cases hk.1
  | loadOldFailed | fetchFailed => exact Job.rearms_failed hk _
  | writeChunkFailed | swapFailed =>
    exact Pc.rearms_cleanupGeneration (Job.rearms_failed hk _) ..
  | loadOld | stamp | unlockFailed => exact hk
  | _ => exact hk.elim

/-- A timer callback goes on until it has armed the next timer. -/
theorem Ran.rearms (h : Ran s i t o s') (hi : s.threads[i]? = some t) (hk : t.pc.rearms key) :
    (s'.mgr t.pid).Armed key ∨
      ∃ u, s'.threads[i]? = some u ∧ u.pid = t.pid ∧ u.pc.rearms key := by
  have hset : ∀ {u : Thread P}, s'.threads = s.threads.set i u → u.pid = t.pid →
      u.pc.rearms key → (s'.mgr t.pid).Armed key ∨
        ∃ u, s'.threads[i]? = some u ∧ u.pid = t.pid ∧ u.pc.rearms key := by
    intro u hu hpid hrearms
    exact .inr ⟨u, getElem?_of_eq_set hu hi, hpid, hrearms⟩
  cases h with
  | move hpc hm =>
    rw [hpc] at hk
    exact hset rfl rfl (hm.rearms hk)
  | @unpin key' g next hpc =>
    rw [hpc] at hk
    have hnext : next.rearms key := hk
    refine hset rfl rfl ?_
    dsimp only
    split
    · exact hnext
    · exact Pc.rearms_cleanupGeneration hnext ..
  | cleanup hpc | expire hpc =>
    rw [hpc] at hk
    refine hset rfl rfl ?_
    dsimp only
    split <;> exact hk
  | @schedule spec delay next hpc =>
    rw [hpc] at hk
    refine .inl ?_
    change (Function.update s.mgr t.pid _ t.pid).Armed key
    rw [Function.update_self, ← show spec.key = key from hk]
    exact Manager.armed_schedule _ _ spec delay
  | acquireFailed hpc =>
    rw [hpc] at hk
    refine hset (State.attempted_setThread ..) rfl ?_
    obtain ⟨rfl, hkey⟩ := hk
    exact hkey
  | acquired hpc =>
    rw [hpc] at hk
    exact hset (State.attempted_setThread ..) rfl hk
  | stage hpc =>
    rw [hpc] at hk
    exact hset rfl rfl (Job.rearms_staging hk ..)
  | writeChunk hpc =>
    rw [hpc] at hk
    refine hset rfl rfl ?_
    dsimp only
    split
    · exact Job.rearms_staging hk ..
    · exact Pc.rearms_cleanupGeneration (Job.rearms_failed hk _) ..
  | swapLost hpc =>
    rw [hpc] at hk
    exact hset rfl rfl (Pc.rearms_cleanupGeneration (Job.rearms_failed hk _) ..)
  | swapFirst hpc =>
    rw [hpc] at hk
    exact hset rfl rfl (Job.rearms_published hk)
  | swapWaits hpc =>
    rw [hpc] at hk
    exact hset rfl rfl (Pc.rearms_expireGenerationFallback (Job.rearms_published hk) ..)
  | swapClears hpc =>
    rw [hpc] at hk
    exact hset rfl rfl (Pc.rearms_cleanupGeneration (Job.rearms_published hk) ..)
  | unlock hpc =>
    rw [hpc] at hk
    exact hset rfl rfl hk
  | pin hpc | registerHit hpc | registerMiss hpc | refill hpc | register hpc | warm hpc =>
    rw [hpc] at hk
    exact hk.elim
  | purge hpc | removeAcquireFailed hpc | removeAcquired hpc | removeLoad hpc =>
    rw [hpc] at hk
    exact hk.elim
  | removeDelFailed hpc | removeDelLost hpc | removeEmpty hpc | removeWaits hpc =>
    rw [hpc] at hk
    exact hk.elim
  | removeClears hpc | migratePublish hpc | migrateRegister hpc | duplicateForget hpc =>
    rw [hpc] at hk
    exact hk.elim
  | duplicateDel hpc =>
    rw [hpc] at hk
    exact hk.elim

/-- Every key with a timer in the memory of a process ticks there. -/
def State.AllTick (s : State P) : Prop :=
  ∀ p key, ((s.mgr p).timers key).isSome = true → s.Ticks p key

theorem ticks_of_ran (h : Ran s i t o s') (hi : s.threads[i]? = some t) (hall : s.AllTick) :
    s'.AllTick := by
  intro p key htm
  have hkeep : (s'.mgr p).timers key = (s.mgr p).timers key → s'.Ticks p key := by
    intro hsame
    rw [hsame] at htm
    rcases hall p key htm with ⟨tm, htm, hpending⟩ | ⟨j, u, hj, rfl, hrearms⟩
    · exact .inl ⟨tm, hsame.trans htm, hpending⟩
    · by_cases hji : j = i
      · subst hji
        rw [hi] at hj
        obtain rfl := Option.some.inj hj
        exact (h.rearms hi hrearms).imp_right fun ⟨u, hu⟩ => ⟨j, u, hu⟩
      · exact .inr ⟨j, u, h.other hji hj, rfl, hrearms⟩
  cases h.updates key p with
  | same _ htimers | registers _ _ _ htimers => exact hkeep htimers
  | arms _ _ _ harmed => exact .inl harmed
  | forgets _ _ _ htimers =>
    rw [htimers] at htm
    cases htm

theorem ticks_of_step {a : Action P} (h : Steps s a s') (hkeyed : ∀ q, (s.mgr q).Keyed)
    (hall : s.AllTick) : s'.AllTick := by
  have hmore : ∀ {s' : State P} {ts : List (Thread P)}, s'.threads = s.threads ++ ts →
      s'.mgr = s.mgr → s'.AllTick := by
    intro s' ts hthreads hmgr p key htm
    rw [hmgr] at htm
    rcases hall p key htm with harmed | ⟨j, u, hj, hpid, hrearms⟩
    · refine .inl ?_
      rw [hmgr]
      exact harmed
    · exact .inr ⟨j, u, by rw [hthreads]; exact getElem?_append_of_some hj, hpid, hrearms⟩
  have hset : ∀ {i : ℕ} {t t' : Thread P}, s.threads[i]? = some t →
      (∀ key, t.pc.rearms key → t'.pid = t.pid ∧ t'.pc.rearms key) →
      (s.setThread i t').AllTick := by
    intro i t t' hi hpc p key htm
    refine (hall p key htm).imp_right fun ⟨j, u, hj, hpid, hrearms⟩ => ?_
    by_cases hji : j = i
    · subst hji
      rw [hi] at hj
      obtain rfl := Option.some.inj hj
      obtain ⟨hpid', hrearms'⟩ := hpc key hrearms
      exact ⟨j, t', getElem?_set_of_some hi, hpid'.trans hpid, hrearms'⟩
    · refine ⟨j, u, ?_, hpid, hrearms⟩
      change (s.threads.set i t')[j]? = some u
      rw [List.getElem?_set_ne (Ne.symm hji)]
      exact hj
  cases h with
  | start => exact hmore rfl rfl
  | run hi hr => exact ticks_of_ran hr hi hall
  | @fire p key tm htm =>
    intro q key' htm'
    by_cases hq : q = p ∧ key' = key
    · obtain ⟨rfl, rfl⟩ := hq
      exact .inr ⟨_, _, List.getElem?_concat_length, rfl, rfl, (hkeyed q).timers htm⟩
    · have htimers : (Function.update s.mgr p
          { s.mgr p with
            timers := Function.update (s.mgr p).timers key (some { tm with pending := false }) }
          q).timers key' = (s.mgr q).timers key' := by
        by_cases hqp : q = p
        · subst hqp
          rw [Function.update_self]
          exact Function.update_of_ne (fun hkey => hq ⟨rfl, hkey⟩) ..
        · rw [Function.update_of_ne hqp]
      replace htm' : ((s.mgr q).timers key').isSome = true :=
        (congrArg Option.isSome htimers).symm.trans htm'
      rcases hall q key' htm' with ⟨tm', htm', hpending⟩ | ⟨j, u, hj, hpid, hrearms⟩
      · exact .inl ⟨tm', htimers.trans htm', hpending⟩
      · exact .inr ⟨j, u, getElem?_append_of_some hj, hpid, hrearms⟩
  | @release i t r hit key g hi hpc =>
    refine hset hi fun key hrearms => ?_
    rw [hpc] at hrearms
    exact hrearms.elim
  | releaseAgain => exact hall
  | cancel hi => exact hset hi fun key hrearms => ⟨rfl, hrearms⟩
  | tick => exact hmore (List.append_nil _).symm rfl
  | @restart p =>
    intro q key htm
    by_cases hq : q = p
    · subst hq
      change ((Function.update s.mgr q newManager q).timers key).isSome = true at htm
      rw [Function.update_self] at htm
      cases htm
    · have hmgr : (stepRestart s p).mgr q = s.mgr q := Function.update_of_ne hq ..
      rw [hmgr] at htm
      rcases hall q key htm with harmed | ⟨j, u, hj, rfl, hrearms⟩
      · refine .inl ?_
        rw [hmgr]
        exact harmed
      · refine .inr ⟨j, u, ?_, rfl, hrearms⟩
        refine (List.getElem?_map ..).trans ((congrArg (Option.map _) hj).trans ?_)
        exact congrArg some (if_neg hq)

/-! ## Every entry keeps its refresh job -/

/-- Every registered key that has an entry is tended. -/
def State.AllTended (s : State P) : Prop :=
  ∀ p key, ((s.mgr p).specs key).isSome = true → (s.redis.loadManifest key).isSome = true →
    s.Tended p key

/-- A neglected key that ticks goes on doing so, and is tended. -/
theorem Ran.tended_of_ticks (h : Ran s i t o s') (hi : s.threads[i]? = some t)
    (hspec : ((s'.mgr p).specs key).isSome = true) (hticks : s.Ticks p key) :
    s'.Tended p key := by
  rcases hticks with harmed | ⟨j, u, hj, rfl, hrearms⟩
  · exact .inl (h.armed hspec harmed)
  · by_cases hji : j = i
    · subst hji
      rw [hi] at hj
      obtain rfl := Option.some.inj hj
      exact (h.rearms hi hrearms).imp_right fun ⟨u, hu, hpid, hrearms⟩ =>
        ⟨j, u, hu, hpid, Pc.arms_of_rearms hrearms⟩
    · exact .inr ⟨j, u, h.other hji hj, rfl, Pc.arms_of_rearms hrearms⟩

theorem tended_of_stepThread (h : stepThread s i t o fetched = some s')
    (hi : s.threads[i]? = some t) (hp : t.pc.plain) (hkeyed : ∀ q, (s.mgr q).Keyed)
    (ha : Action.tends s (.run i o fetched)) (htick : s.AllTick) (hall : s.AllTended) :
    s'.AllTended := by
  have hr := Ran.of_stepThread h
  intro p key hspec hm
  rcases hr.registers hi hp (hkeyed _) hspec with hbefore | htended
  swap
  · exact htended
  have hentry := hr.stored_or_published hm
  by_cases hneglects : t.Neglects s o fetched p key
  · exact hr.tended_of_ticks hi hspec (htick p key (ha t p key hi hbefore hentry hneglects))
  -- what thread `i` does for the key, it goes on doing
  have hself : t.pid = p → t.pc.arms key → s'.Tended p key := by
    rintro rfl harms
    have hno : ¬ t.GivesUp s o fetched := fun hup => hneglects (.inl ⟨rfl, harms, hup⟩)
    exact (arms_of_stepThread h hi hp (hkeyed _) harms hno).imp_right fun ⟨u, hu⟩ => ⟨i, u, hu⟩
  rcases hentry with hm | hpublishes
  · rcases hall p key hbefore hm with harmed | ⟨j, u, hj, hpid, harms⟩
    · exact .inl (hr.armed hspec harmed)
    · by_cases hji : j = i
      · subst hji
        rw [hi] at hj
        obtain rfl := Option.some.inj hj
        exact hself hpid harms
      · exact .inr ⟨j, u, hr.other hji hj, hpid, harms⟩
  · have hpid : t.pid = p := by
      by_contra hpid
      exact hneglects (.inr ⟨hpid, hpublishes⟩)
    refine hself hpid ?_
    rw [Thread.Publishes] at hpublishes
    split at hpublishes
    · next hpc =>
      rw [hpc]
      exact hpublishes.1
    · exact hpublishes.elim

theorem tended_of_step {a : Action P} (h : step s a = some s') (ha : a.tends s) (hs : s.Shape)
    (hkeyed : ∀ q, (s.mgr q).Keyed) (htick : s.AllTick) (hall : s.AllTended) :
    s'.AllTended := by
  have hmore : ∀ {s' : State P} {ts : List (Thread P)}, s'.threads = s.threads ++ ts →
      s'.mgr = s.mgr → s'.redis = s.redis → s'.AllTended := by
    intro s' ts hthreads hmgr hredis p key hspec hm
    rw [hmgr] at hspec
    rw [hredis] at hm
    rcases hall p key hspec hm with harmed | ⟨j, u, hj, hpid, harms⟩
    · refine .inl ?_
      rw [hmgr]
      exact harmed
    · exact .inr ⟨j, u, by rw [hthreads]; exact getElem?_append_of_some hj, hpid, harms⟩
  -- a thread whose program point stays, or which did not tend anything
  have hset : ∀ {i : ℕ} {t t' : Thread P}, s.threads[i]? = some t →
      (∀ key, t.pc.arms key → t'.pid = t.pid ∧ t'.pc.arms key) →
      (s.setThread i t').AllTended := by
    intro i t t' hi hpc p key hspec hm
    refine (hall p key hspec hm).imp_right fun ⟨j, u, hj, hpid, harms⟩ => ?_
    by_cases hji : j = i
    · subst hji
      rw [hi] at hj
      obtain rfl := Option.some.inj hj
      obtain ⟨hpid', harms'⟩ := hpc key harms
      exact ⟨j, t', getElem?_set_of_some hi, hpid'.trans hpid, harms'⟩
    · refine ⟨j, u, ?_, hpid, harms⟩
      change (s.threads.set i t')[j]? = some u
      rw [List.getElem?_set_ne (Ne.symm hji)]
      exact hj
  have hsteps := Steps.of_step h
  cases hsteps with
  | start => exact hmore rfl rfl rfl
  | @run i o fetched t _ hi hr =>
    simp only [step, hi] at h
    exact tended_of_stepThread h hi (hs t (List.mem_of_getElem? hi)).plain hkeyed ha htick hall
  | @fire p key tm htm =>
    intro q key' hspec hm
    by_cases hq : q = p ∧ key' = key
    · obtain ⟨rfl, rfl⟩ := hq
      exact .inr ⟨_, _, List.getElem?_concat_length, rfl, (hkeyed q).timers htm⟩
    · have hspec' : ((s.mgr q).specs key').isSome = true := by
        by_cases hqp : q = p
        · subst hqp
          change ((Function.update s.mgr q _ q).specs key').isSome = true at hspec
          rwa [Function.update_self] at hspec
        · change ((Function.update s.mgr p _ q).specs key').isSome = true at hspec
          rwa [Function.update_of_ne hqp] at hspec
      rcases hall q key' hspec' hm with ⟨tm', htm', hpending⟩ | ⟨j, u, hj, hpid, harms⟩
      · refine .inl ⟨tm', ?_, hpending⟩
        change (Function.update s.mgr p _ q).timers key' = some tm'
        by_cases hqp : q = p
        · subst hqp
          rw [Function.update_self]
          exact (Function.update_of_ne (fun hkey => hq ⟨rfl, hkey⟩) ..).trans htm'
        · rw [Function.update_of_ne hqp]
          exact htm'
      · exact .inr ⟨j, u, getElem?_append_of_some hj, hpid, harms⟩
  | @release i t r hit key g hi hpc =>
    refine hset hi fun key harms => ?_
    rw [hpc] at harms
    exact harms.elim
  | releaseAgain => exact hall
  | cancel hi => exact hset hi fun key harms => ⟨rfl, harms⟩
  | tick => exact hmore (List.append_nil _).symm rfl rfl
  | @restart p =>
    intro q key hspec hm
    by_cases hq : q = p
    · subst hq
      change ((Function.update s.mgr q newManager q).specs key).isSome = true at hspec
      rw [Function.update_self] at hspec
      cases hspec
    · have hmgr : (stepRestart s p).mgr q = s.mgr q := Function.update_of_ne hq ..
      rw [hmgr] at hspec
      rcases hall q key hspec hm with harmed | ⟨j, u, hj, rfl, harms⟩
      · refine .inl ?_
        rw [hmgr]
        exact harmed
      · refine .inr ⟨j, u, ?_, rfl, harms⟩
        refine (List.getElem?_map ..).trans ((congrArg (Option.map _) hj).trans ?_)
        exact congrArg some (if_neg hq)

/-- **Every entry is tended**: in every run in which a process neglects a key only after it has
armed a timer of it, every registered key that has an entry has a pending timer, or an operation on
its way to arm one. Such an operation goes on until it has armed it, unless it gives up. -/
theorem every_entry_tended (h : Run step Action.tends (init : State P) s) :
    (∀ p key, ((s.mgr p).specs key).isSome = true →
      (s.redis.loadManifest key).isSome = true → s.Tended p key) ∧
    ∀ i t o fetched s' key, s.threads[i]? = some t → t.pc.arms key → ¬ t.GivesUp s o fetched →
      step s (.run i o fetched) = some s' →
      (s'.mgr t.pid).Armed key ∨ ∃ u, s'.threads[i]? = some u ∧ u.pid = t.pid ∧ u.pc.arms key := by
  have hinv : s.Shape ∧ (∀ q, (s.mgr q).Keyed) ∧ s.AllTick ∧ s.AllTended := by
    have hempty : (init : State P).AllTick ∧ (init : State P).AllTended :=
      ⟨fun p key h => (nomatch h), fun p key h => (nomatch h)⟩
    refine Run.invariant
      (I := fun s => s.Shape ∧ (∀ q, (s.mgr q).Keyed) ∧ s.AllTick ∧ s.AllTended) ?_ h
      ⟨init_shape, fun q => ⟨fun h => (nomatch h), fun h => (nomatch h)⟩, hempty⟩
    rintro s a s' ⟨hs, hkeyed, htick, hall⟩ ha hstep
    have hsteps := Steps.of_step hstep
    have hplain : a.plain := by
      cases a with
      | start => exact ha
      | _ => trivial
    exact ⟨hsteps.shape hplain hs, hsteps.keyed hkeyed, ticks_of_step hsteps hkeyed htick,
      tended_of_step hstep ha hs hkeyed htick hall⟩
  obtain ⟨hs, hkeyed, -, hall⟩ := hinv
  refine ⟨hall, fun i t o fetched s' key hi harms hno hstep => ?_⟩
  simp only [step, hi] at hstep
  exact arms_of_stepThread hstep hi (hs t (List.mem_of_getElem? hi)).plain (hkeyed _) harms hno

/-- `Warm` publishes and arms a timer. -/
def warmArms : List (Action Unit) :=
  [.start () (.warm sampleSpec) none, .run 0 .ok none, .run 0 .ok none, .run 0 .ok none,
    .run 0 .ok (some sampleResponse), .run 0 .ok none, .run 0 .ok none, .run 0 .ok none,
    .run 0 .ok none, .run 0 .ok none]

instance (o : Outcome) : (pc : Pc) → Decidable (pc.GivesUp s o fetched)
  | .acquire .. => inferInstanceAs (Decidable (_ ∧ _))
  | .loadOld .. => inferInstanceAs (Decidable (_ ∧ ite _ _ _))
  | .fetch .. => inferInstanceAs (Decidable (_ ∧ _))
  | .writeChunk .. => inferInstanceAs (Decidable (_ ∧ _))
  | .swap .. => inferInstanceAs (Decidable (_ ∧ (_ ∨ _)))
  | .bypass .. | .get .. | .getBody .. | .getChunk .. | .releaseReader .. | .cleanup ..
  | .expire .. | .getRegister .. | .scheduleFromMeta .. | .schedule .. | .refillMissing ..
  | .registerLoad .. | .register .. | .warm .. | .replaceNow .. | .stamp .. | .unlock ..
  | .removeAcquire .. | .removeLoad .. | .removeDel .. | .migrateLoad .. | .migratePublish ..
  | .migrateRegister .. | .duplicateLoad .. | .duplicateForget .. | .duplicateDel ..
  | .returned .. | .crashed => inferInstanceAs (Decidable False)

/-- The action is one of that run, and nobody gives up. -/
def armingStep (s : State Unit) : Action Unit → Bool
  | .start _ call _ => call = .warm sampleSpec
  | .run i o fetched => s.threads[i]?.all fun t => !decide (t.GivesUp s o fetched)
  | _ => false

theorem tends_of_armingStep {s : State Unit} {a : Action Unit} (h : armingStep s a = true) :
    a.tends s := by
  cases a with
  | start p call deadline =>
    obtain rfl : call = .warm sampleSpec := of_decide_eq_true h
    trivial
  | run i o fetched =>
    intro t p key hi _ _ hneglects
    rw [armingStep, hi] at h
    rcases hneglects with ⟨-, -, hup⟩ | ⟨hpid, -⟩
    · exact absurd hup (of_decide_eq_false (Bool.not_eq_true' _ ▸ h))
    · exact absurd rfl hpid
  | _ => trivial

theorem every_entry_tended_warm :
    ∃ s : State Unit, Run step Action.tends init s ∧
      (s.redis.loadManifest sampleSpec.key).isSome = true ∧ s.Tended () sampleSpec.key := by
  have h : (exec (fun s a => if armingStep s a then step s a else none) (init : State Unit)
      warmArms).map (fun s => (((s.mgr ()).specs "iptv:cache:p:e").isSome,
        (s.redis.loadManifest "iptv:cache:p:e").isSome)) = some (true, true) := by
    decide +kernel
  obtain ⟨s, hrun, hobs⟩ := Run.of_tested (fun _ _ => tends_of_armingStep) h
  obtain ⟨hspec, hm⟩ := Prod.mk.inj hobs
  exact ⟨s, hrun, hm, (every_entry_tended hrun).1 () _ hspec hm⟩

/-! ## A lost reply -/

/-- A caller of an operation other than `Remove` and `MigrateLegacy`. -/
def Call.upkeep : Call → Prop
  | .remove _ => False
  | .migrateLegacy _ _ => False
  | _ => True

/-- What happens to entries that stay. -/
def Action.upkeep : Action P → Prop
  | .start _ call _ => call.upkeep
  | .restart _ => False
  | _ => True

/-- The publish script of a `Warm` is executed, but its reply gets lost. -/
def warmLosesReply : List (Action Unit) :=
  [.start () (.warm sampleSpec) none, .run 0 .ok none, .run 0 .ok none, .run 0 .ok none,
    .run 0 .ok (some sampleResponse), .run 0 .ok none, .run 0 .ok none, .run 0 .lost none,
    .run 0 .ok none, .run 0 .ok none]

/-- The entry is there, its key is registered, and nobody is going to refresh it. -/
theorem lost_reply_untended :
    ∃ s : State Unit, Run step (fun _ a => a.upkeep) init s ∧
      ((s.mgr ()).specs sampleSpec.key).isSome = true ∧
      (s.redis.loadManifest sampleSpec.key).isSome = true ∧ ¬ s.Tended () sampleSpec.key := by
  have h : (exec step (init : State Unit) warmLosesReply).map (fun s =>
      (((s.mgr ()).specs "iptv:cache:p:e").isSome,
        (s.redis.loadManifest "iptv:cache:p:e").isSome, (s.mgr ()).timers "iptv:cache:p:e",
        s.threads.map Thread.pc)) =
      some (true, true, none, [.returned (.error .redis)]) := by
    decide +kernel
  have hok : ∀ a ∈ warmLosesReply, ∀ _ : State Unit, a.upkeep := by
    simp [warmLosesReply, Action.upkeep, Call.upkeep]
  obtain ⟨s, hrun, hobs⟩ := Run.of_eval hok h
  obtain ⟨hspec, hobs⟩ := Prod.mk.inj hobs
  obtain ⟨hm, hobs⟩ := Prod.mk.inj hobs
  obtain ⟨htimer, hpcs⟩ := Prod.mk.inj hobs
  refine ⟨s, hrun, hspec, hm, ?_⟩
  rintro (⟨tm, htm, -⟩ | ⟨j, u, hj, -, harms⟩)
  · rw [show sampleSpec.key = "iptv:cache:p:e" from rfl, htimer] at htm
    cases htm
  · have hmem : u.pc ∈ s.threads.map Thread.pc :=
      List.mem_map_of_mem (List.mem_of_getElem? hj)
    rw [hpcs, List.mem_singleton] at hmem
    rw [hmem] at harms
    exact harms

end IptvProxy.Cache
