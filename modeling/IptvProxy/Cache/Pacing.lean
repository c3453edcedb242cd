import IptvProxy.Cache.Upkeep

/-!
# Refresh pacing

The timer of an entry should not be due before 70 % of its lifetime are over, and after a failed
refresh the next one should wait for `retryDelay`. `refreshes_paced` says in which runs this is so:
a hit arms the timer only from the active entry and not while a failed refresh waits, and a failed
refresh arms it only if nobody else has done so since. `hit_ends_wait` is a hit that starts a
refresh at once.

A run is watched for one key: `seen` are the manifests that the requests have read, `quiet` is the
end of the wait, and `early` says that a refresh has begun before it.
-/

namespace IptvProxy.Cache

open Agents Transition

/-! ## What is watched -/

/-- The key that an operation works on. -/
def Pc.key : Pc → Option String
  | .bypass spec => some spec.key
  | .get key _ => some key
  | .getBody key _ _ => some key
  | .getChunk key _ _ _ _ _ => some key
  | .releaseReader key _ _ => some key
  | .cleanup key _ _ _ _ _ => some key
  | .expire key _ _ _ _ _ => some key
  | .getRegister spec _ => some spec.key
  | .scheduleFromMeta spec _ _ => some spec.key
  | .schedule spec _ _ => some spec.key
  | .refillMissing spec => some spec.key
  | .registerLoad spec _ => some spec.key
  | .register spec _ _ => some spec.key
  | .warm spec => some spec.key
  | .replaceNow key => some key
  | .acquire spec _ => some spec.key
  | .loadOld job => some job.spec.key
  | .fetch job => some job.spec.key
  | .writeChunk job _ _ => some job.spec.key
  | .stamp job _ => some job.spec.key
  | .swap job _ _ => some job.spec.key
  | .unlock key _ _ => some key
  | .removeAcquire key => some key
  | .removeLoad key _ => some key
  | .removeDel key _ _ => some key
  | .migrateLoad _ spec => some spec.key
  | .migratePublish _ spec _ => some spec.key
  | .migrateRegister _ spec => some spec.key
  | .duplicateLoad key => some key
  | .duplicateForget key => some key
  | .duplicateDel key => some key
  | .returned _ => none
  | .crashed => none

/-- A timer-driven refresh of the key has failed and is about to arm its retry. -/
def Pc.retries (key : String) : Pc → Bool
  | .schedule spec _ (.returned (.error _)) => spec.key = key
  | _ => false

/-- The next section publishes the key. -/
def Pc.swaps (key : String) : Pc → Bool
  | .swap job _ _ => job.spec.key = key
  | _ => false

/-- The manifest that a thread has read after its next section. -/
def Pc.reads (s : State Unit) (seen : Option Manifest) : Pc → Option Manifest
  | .get key _ => s.redis.loadManifest key
  | _ => seen

/-- A run that is watched for one key. -/
structure Watch where
  /-- the system -/
  state : State Unit
  /-- the manifest that a thread has read in `get` -/
  seen : ℕ → Option Manifest
  /-- a timer-driven refresh should not begin before -/
  quiet : ℕ
  /-- one has begun before -/
  early : Bool

/-- Nothing has happened. -/
def Watch.init : Watch := ⟨Cache.init, fun _ => none, 0, false⟩

/-- What has been read when thread `i` has executed its next section. -/
def Watch.read (w : Watch) (i : ℕ) : ℕ → Option Manifest :=
  match w.state.threads[i]? with
  | some t => Function.update w.seen i (t.pc.reads w.state (w.seen i))
  | none => w.seen

/-- A `Warm` or `Purge` of the key has published. -/
def pulled (key : String) (s s' : State Unit) : Bool :=
  decide (s.published.length < s'.published.length) && s'.published.head?.any fun p =>
    decide (p.key = key) && (decide (p.operation = .warm) || decide (p.operation = .purge))

/-- The wait when thread `i` has executed its next section: an explicit pull ends it, a refresh that
has failed starts it. -/
def Watch.wait (key : String) (ttl : ℤ) (w : Watch) (i : ℕ) (s' : State Unit) : ℕ :=
  let quiet := if pulled key w.state s' then 0 else w.quiet
  if (s'.threads[i]?).any fun t => t.pc.retries key then
    max quiet (w.state.now + (retryDelay ttl).toNat)
  else quiet

/-- A step, watched for `key`. -/
def Watch.step (key : String) (ttl : ℤ) (w : Watch) (a : Action Unit) : Option Watch :=
  (Cache.step w.state a).map fun s' =>
    match a with
    | .run i _ _ => { w with state := s', seen := w.read i, quiet := w.wait key ttl i s' }
    | .fire _ k =>
      { w with
        state := s'
        early := w.early || (decide (k = key) && decide (w.state.now < w.quiet)) }
    | _ => { w with state := s' }

/-- Refreshes are paced: none has begun too early, and while no operation on the key is in flight,
its pending timer is due when 70 % of the lifetime of the active entry are over, or later. -/
def Watch.Kept (key : String) (ttl : ℤ) (w : Watch) : Prop :=
  w.early = false ∧
  ((∀ t ∈ w.state.threads, t.pc.key ≠ some key) → ∀ tm m,
    (w.state.mgr ()).timers key = some tm → tm.pending = true →
    w.state.redis.loadManifest key = some m →
    m.info.fetchedAt * second + thresholdDelay ttl ≤ tm.due + second)

/-! ## The runs -/

/-- `GetOrFetch`, `Warm` or `Purge`, with the one lifetime of the key. -/
def Call.fixed (key : String) (ttl : ℤ) : Call → Prop
  | .getOrFetch spec => spec.normalized.key = key → spec.normalized.ttl = ttl
  | .warm spec => spec.normalized.key = key → spec.normalized.ttl = ttl
  | .purge _ => True
  | _ => False

/-- Who may arm the timer of the key. -/
def Watch.Arms (key : String) (w : Watch) (i : ℕ) : Pc → Prop
  -- a hit: what it has read is the active entry, and no failed refresh waits
  | .schedule spec _ (.returned (.response _ _)) => spec.key = key →
      w.seen i = w.state.redis.loadManifest key ∧ w.quiet ≤ w.state.now
  -- a failed refresh: nobody has armed the timer since it began
  | .schedule spec _ (.returned (.error _)) => spec.key = key →
      ∃ tm, (w.state.mgr ()).timers key = some tm ∧ tm.pending = false
  | _ => True

/-- The steps of the runs in which refreshes are paced. -/
def Steady (key : String) (ttl : ℤ) (w : Watch) : Action Unit → Prop
  | .start _ call _ => call.fixed key ttl
  | .run i o _ => ∀ t, w.state.threads[i]? = some t →
      w.Arms key i t.pc ∧ (t.pc.swaps key = true → t.under w.state.now o ≠ .lost)
  | .fire _ k => k = key → ∀ t ∈ w.state.threads, t.pc.retries key = false
  | .restart _ => False
  | _ => True

/-! ## What an operation knows -/

/-- The spec has the lifetime of the key. -/
def Spec.Fixed (key : String) (ttl : ℤ) (spec : Spec) : Prop := spec.key = key → spec.ttl = ttl

/-- A request of a key. -/
def GetCaller.Fixed (key : String) (ttl : ℤ) (k : String) : GetCaller → Prop
  | .getOrFetch spec => spec.key = k ∧ spec.Fixed key ttl
  | .migrate _ => False

/-- Why a delay is armed, by what follows. -/
def Delays (key : String) (ttl : ℤ) (seen : Option Manifest) (now : ℕ) (spec : Spec) (delay : ℤ) :
    Pc → Prop
  | .returned (.response _ _) => spec.key = key →
      ∃ m, seen = some m ∧ m.info.expiresAt * second ≤ now + delay + refreshThreshold ttl
  | .returned (.error _) => delay = retryDelay spec.ttl
  | .unlock _ _ (.returned .ok) => delay = thresholdDelay spec.ttl
  | _ => False

/-- What an operation knows of the lifetime, of the manifest it has read and of the time. -/
def Pc.Steady (key : String) (ttl : ℤ) (seen : Option Manifest) (now : ℕ) : Pc → Prop
  | .bypass _ => True
  | .get k caller => caller.Fixed key ttl k
  | .getBody k m caller => caller.Fixed key ttl k ∧ (k = key → seen = some m)
  | .getChunk k m _ _ _ caller => caller.Fixed key ttl k ∧ (k = key → seen = some m)
  | .releaseReader _ _ next => next.Steady key ttl seen now
  | .cleanup _ _ _ _ _ next => next.Steady key ttl seen now
  | .expire _ _ _ _ _ next => next.Steady key ttl seen now
  | .unlock _ _ next => next.Steady key ttl seen now
  | .getRegister spec found => spec.Fixed key ttl ∧
      ∀ m r, found = some (m, r) → spec.key = key → seen = some m
  | .scheduleFromMeta spec info next => spec.Fixed key ttl ∧
      (∃ r, next = .returned (.response r true)) ∧
      (spec.key = key → ∃ m, seen = some m ∧ m.info = info)
  | .schedule spec delay next => spec.Fixed key ttl ∧ Delays key ttl seen now spec delay next
  | .refillMissing spec => spec.Fixed key ttl
  | .warm spec => spec.Fixed key ttl
  | .replaceNow _ => True
  | .acquire spec operation => operation.plain ∧ spec.Fixed key ttl
  | .loadOld job => job.operation.plain ∧ job.spec.Fixed key ttl
  | .fetch job => job.operation.plain ∧ job.spec.Fixed key ttl
  | .writeChunk job _ _ => job.operation.plain ∧ job.spec.Fixed key ttl
  | .stamp job _ => job.operation.plain ∧ job.spec.Fixed key ttl
  | .swap job _ fetchedAt => job.operation.plain ∧ job.spec.Fixed key ttl ∧ fetchedAt ≤ now
  | .returned _ => True
  | _ => False

section Steady

variable {key k : String} {ttl : ℤ} {seen : Option Manifest} {now now' : ℕ} {spec : Spec}
  {job : Job} {next : Pc}

/-- A hit, a refresh that has failed, or an operation that has published. -/
theorem Delays.cases {delay : ℤ} (h : Delays key ttl seen now spec delay next) :
    (∃ r hit, next = .returned (.response r hit)) ∨ (∃ e, next = .returned (.error e)) ∨
      ∃ k opID, next = .unlock k opID (.returned .ok) := by
  cases next with
  | returned r =>
    cases r with
    | response r hit => exact .inl ⟨r, hit, rfl⟩
    | error e => exact .inr (.inl ⟨e, rfl⟩)
    | ok => exact h.elim
  | unlock k opID next =>
    cases next with
    | returned r =>
      cases r with
      | ok => exact .inr (.inr ⟨k, opID, rfl⟩)
      | _ => exact h.elim
    | _ => exact h.elim
  | _ => exact h.elim

theorem Delays.mono {delay : ℤ} (h : Delays key ttl seen now spec delay next) (hnow : now ≤ now') :
    Delays key ttl seen now' spec delay next := by
  rcases h.cases with ⟨r, hit, rfl⟩ | ⟨e, rfl⟩ | ⟨k, opID, rfl⟩
  · intro hkey
    obtain ⟨m, hm, hdue⟩ := h hkey
    exact ⟨m, hm, by omega⟩
  · exact h
  · exact h

/-- What is known stays true as time passes. -/
theorem Pc.Steady.mono {pc : Pc} (h : pc.Steady key ttl seen now) (hnow : now ≤ now') :
    pc.Steady key ttl seen now' := by
  induction pc with
  | schedule spec delay next => exact ⟨h.1, h.2.mono hnow⟩
  | swap job staged fetchedAt => exact ⟨h.1, h.2.1, Nat.le_trans h.2.2 hnow⟩
  | releaseReader _ _ _ ih | cleanup _ _ _ _ _ _ ih | expire _ _ _ _ _ _ ih | unlock _ _ _ ih =>
    exact ih h
  | _ => exact h

theorem Pc.steady_cleanupGeneration {g n : ℕ} {background : Bool}
    (h : next.Steady key ttl seen now) :
    (Pc.cleanupGeneration k g n background next).Steady key ttl seen now := by
  rw [Pc.cleanupGeneration]
  split <;> exact h

theorem Pc.steady_expireGenerationFallback {g n : ℕ} {background : Bool}
    (h : next.Steady key ttl seen now) :
    (Pc.expireGenerationFallback k g n background next).Steady key ttl seen now := by
  rw [Pc.expireGenerationFallback]
  split <;> exact h

theorem Operation.steady_failed {operation : Operation} (hspec : spec.Fixed key ttl) (e : Error) :
    (operation.failed spec e).Steady key ttl seen now := by
  cases operation with
  | refresh => exact ⟨hspec, rfl⟩
  | _ => trivial

theorem Job.steady_failed (hspec : job.spec.Fixed key ttl) (e : Error) :
    (job.failed e).Steady key ttl seen now := by
  rw [Job.failed]
  split
  · trivial
  · exact Operation.steady_failed hspec e

theorem Job.steady_published (hop : job.operation.plain) (hspec : job.spec.Fixed key ttl) :
    job.published.Steady key ttl seen now := by
  rw [Job.published_of_plain hop]
  exact ⟨hspec, rfl⟩

theorem Job.steady_staging (hop : job.operation.plain) (hspec : job.spec.Fixed key ttl)
    (staged : Staged) (j : ℕ) : (job.staging staged j).Steady key ttl seen now := by
  rw [Job.staging]
  split <;> exact ⟨hop, hspec⟩

theorem GetCaller.steady_found {caller : GetCaller} (h : caller.Fixed key ttl k) {m : Manifest}
    (hseen : k = key → seen = some m) (r : Response) :
    (caller.found k m r).Steady key ttl seen now := by
  cases caller with
  | getOrFetch spec =>
    refine ⟨h.2, fun m' r' heq hkey => ?_⟩
    obtain ⟨rfl, rfl⟩ := Prod.mk.inj (Option.some.inj heq)
    exact hseen (h.1.symm.trans hkey)
  | migrate => exact h.elim

theorem GetCaller.steady_notFound {caller : GetCaller} (h : caller.Fixed key ttl k) :
    caller.notFound.Steady key ttl seen now := by
  cases caller with
  | getOrFetch spec => exact ⟨h.2, fun _ _ heq => by cases heq⟩
  | migrate => exact h.elim

end Steady

section Ran

variable {s s' : State Unit} {i : ℕ} {t : Thread Unit} {o : Outcome} {key : String} {ttl : ℤ}
  {seen : Option Manifest} {spec : Spec} {delay : ℤ} {next : Pc}

/-- Specs are found under their keys, and those of the key have its lifetime. -/
abbrev Manager.Fixed (key : String) (ttl : ℤ) (m : Manager) : Prop :=
  m.All fun k spec => spec.key = k ∧ spec.Fixed key ttl

theorem Moves.steady {pc pc' : Pc} (h : Moves s t o pc pc')
    (hpc : pc.Steady key ttl seen s.now) : pc'.Steady key ttl (pc.reads s seen) s.now := by
  cases h with
  | getMissing => exact GetCaller.steady_notFound hpc
  | getLegacy hm => exact ⟨hpc, fun _ => hm⟩
  | getBodyMissing => exact GetCaller.steady_notFound hpc.1
  | getBodyFound | getChunkDone => exact GetCaller.steady_found hpc.1 hpc.2 _
  | getChunkNext => exact hpc
  | cleanupFailed | expireFailed => split <;> exact hpc
  | scheduleFromMeta =>
    obtain ⟨hspec, ⟨r, rfl⟩, hm⟩ := hpc
    refine ⟨hspec, fun hkey => ?_⟩
    obtain ⟨m, hseen, rfl⟩ := hm hkey
    refine ⟨m, hseen, ?_⟩
    rw [hspec hkey, delayFromMeta]
    omega
  | loadOldFill | loadOld => exact hpc
  | loadOldFailed | fetchFailed => exact Job.steady_failed hpc.2 _
  | writeChunkFailed => exact Pc.steady_cleanupGeneration (Job.steady_failed hpc.2 _)
  | stamp => exact ⟨hpc.1, hpc.2, Nat.le_refl _⟩
  | swapFailed => exact Pc.steady_cleanupGeneration (Job.steady_failed hpc.2.1 _)
  | unlockFailed => exact hpc
  | registerLoadFailed | registerLoadFound | removeLoadFailed | migrateLoadFailed
  | migrateLoadFound | migrateLoadMissing | migrateDisabled | duplicateLoadFailed
  | duplicateLoadNone | duplicateLoadSome | duplicateDelFailed => exact hpc.elim
  | _ => trivial

/-- What the running thread knows afterwards, and the refill that it may have started. -/
theorem Ran.steady (h : Ran s i t o s') (hspecs : (s.mgr ()).Fixed key ttl)
    (ht : t.pc.Steady key ttl seen s.now) :
    ∃ t' : Thread Unit,
      (s'.threads = s.threads.set i t' ∨ ∃ u : Thread Unit, s'.threads = s.threads.set i t' ++ [u] ∧
        ∀ seen', u.pc.Steady key ttl seen' s.now) ∧
      t'.pc.Steady key ttl (t.pc.reads s seen) s.now := by
  cases h with
  | move hpc hm =>
    subst hpc
    exact ⟨_, .inl rfl, hm.steady ht⟩
  | pin hpc _ hm =>
    rw [hpc] at ht ⊢
    exact ⟨_, .inl rfl, ⟨ht, fun _ => hm⟩⟩
  | unpin hpc =>
    rw [hpc] at ht ⊢
    refine ⟨_, .inl rfl, ?_⟩
    dsimp only
    split
    · exact ht
    · exact Pc.steady_cleanupGeneration ht
  | cleanup hpc | expire hpc =>
    rw [hpc] at ht ⊢
    refine ⟨_, .inl rfl, ?_⟩
    dsimp only
    split <;> exact ht
  | @registerHit spec manifest r hpc =>
    rw [hpc] at ht ⊢
    obtain ⟨hkey, hfixed⟩ := (hspecs.registerIfAbsent ⟨rfl, ht.1⟩).2
    exact ⟨_, .inl rfl, hfixed, ⟨r, rfl⟩,
      fun h => ⟨manifest, ht.2 _ _ rfl (hkey.symm.trans h), rfl⟩⟩
  | registerMiss hpc =>
    rw [hpc] at ht ⊢
    exact ⟨_, .inr ⟨_, rfl, fun _ => (hspecs.registerIfAbsent ⟨rfl, ht.1⟩).2.2⟩, trivial⟩
  | schedule hpc =>
    rw [hpc] at ht ⊢
    refine ⟨_, .inl rfl, ?_⟩
    rcases ht.2.cases with ⟨r, hit, rfl⟩ | ⟨e, rfl⟩ | ⟨k, opID, rfl⟩ <;> trivial
  | refill hpc =>
    rw [hpc] at ht ⊢
    exact ⟨_, .inl rfl, ⟨trivial, ht⟩⟩
  | warm hpc =>
    rw [hpc] at ht ⊢
    exact ⟨_, .inl rfl, ⟨trivial, (hspecs.registerIfAbsent ⟨rfl, ht⟩).2.2⟩⟩
  | purge hpc hs =>
    rw [hpc]
    exact ⟨_, .inl rfl, ⟨trivial, (hspecs.specs hs).2⟩⟩
  | acquireFailed hpc =>
    rw [hpc] at ht ⊢
    exact ⟨_, .inl (State.attempted_setThread ..), Operation.steady_failed ht.2 _⟩
  | acquired hpc =>
    rw [hpc] at ht ⊢
    exact ⟨_, .inl (State.attempted_setThread ..), ht⟩
  | stage hpc =>
    rw [hpc] at ht ⊢
    exact ⟨_, .inl rfl, Job.steady_staging ht.1 ht.2 _ _⟩
  | writeChunk hpc =>
    rw [hpc] at ht ⊢
    refine ⟨_, .inl rfl, ?_⟩
    dsimp only
    split
    · exact Job.steady_staging ht.1 ht.2 _ _
    · exact Pc.steady_cleanupGeneration (Job.steady_failed ht.2 _)
  | swapLost hpc =>
    rw [hpc] at ht ⊢
    exact ⟨_, .inl rfl, Pc.steady_cleanupGeneration (Job.steady_failed ht.2.1 _)⟩
  | swapFirst hpc =>
    rw [hpc] at ht ⊢
    exact ⟨_, .inl rfl, Job.steady_published ht.1 ht.2.1⟩
  | swapWaits hpc =>
    rw [hpc] at ht ⊢
    exact ⟨_, .inl rfl, Pc.steady_expireGenerationFallback (Job.steady_published ht.1 ht.2.1)⟩
  | swapClears hpc =>
    rw [hpc] at ht ⊢
    exact ⟨_, .inl rfl, Pc.steady_cleanupGeneration (Job.steady_published ht.1 ht.2.1)⟩
  | unlock hpc =>
    rw [hpc] at ht ⊢
    exact ⟨_, .inl rfl, ht⟩
  | _ hpc =>
    rw [hpc] at ht
    exact ht.elim

/-- `schedule` arms the timer. -/
theorem Ran.scheduled (h : Ran s i t o s') (hpc : t.pc = .schedule spec delay next) :
    s' = (s.setMgr t.pid ((s.mgr t.pid).schedule s.now spec delay)).goto i t next := by
  cases h with
  | move hpc' hm =>
    rw [hpc] at hpc'
    subst hpc'
    cases hm
  | schedule hpc' =>
    rw [hpc] at hpc'
    cases hpc'
    rfl
  | _ hpc' =>
    rw [hpc] at hpc'
    cases hpc'

/-- The timer of the key stays, or the section is `schedule`. -/
theorem Ran.timer (h : Ran s i t o s') (ht : t.pc.Steady key ttl seen s.now) :
    (s'.mgr ()).timers key = (s.mgr ()).timers key ∨
      ∃ spec delay next, t.pc = .schedule spec delay next ∧ spec.key = key := by
  cases h.updates key () with
  | same _ htimers | registers _ _ _ htimers => exact .inl htimers
  | arms _ hpc =>
    cases hschedule : t.pc with
    | schedule spec delay next =>
      rw [hschedule] at hpc
      exact .inr ⟨spec, delay, next, rfl, hpc⟩
    | _ =>
      rw [hschedule] at hpc
      exact hpc.elim
  | forgets _ hpc =>
    cases hforget : t.pc with
    | removeDel | duplicateForget =>
      rw [hforget] at ht
      exact ht.elim
    | _ =>
      rw [hforget] at hpc
      exact hpc.elim

/-- The operation has published the key and is about to arm its timer. -/
def Pc.arming (key : String) : Pc → Prop
  | .schedule spec _ (.unlock _ _ _) => spec.key = key
  | .cleanup k _ _ _ _ next => k = key ∧ next.arming key
  | .expire k _ _ _ _ next => k = key ∧ next.arming key
  | _ => False

theorem Pc.key_of_arming {pc : Pc} (h : pc.arming key) : pc.key = some key := by
  cases pc with
  | schedule spec delay next =>
    cases next with
    | unlock => exact congrArg some h
    | _ => exact h.elim
  | cleanup | expire => exact congrArg some h.1
  | _ => exact h.elim

theorem Job.arming_published {job : Job} (hop : job.operation.plain) :
    job.published.arming job.spec.key := by
  rw [Job.published_of_plain hop]
  exact rfl

theorem Pc.arming_cleanupGeneration {g n : ℕ} {background : Bool} (h : next.arming key) :
    (Pc.cleanupGeneration key g n background next).arming key := by
  rw [Pc.cleanupGeneration]
  split
  · exact ⟨rfl, h⟩
  · exact h

theorem Pc.arming_expireGenerationFallback {g n : ℕ} {background : Bool} (h : next.arming key) :
    (Pc.expireGenerationFallback key g n background next).arming key := by
  rw [Pc.expireGenerationFallback]
  split
  · exact ⟨rfl, h⟩
  · exact h

/-- Who has published is about to arm the timer, unless the reply is lost. -/
theorem Ran.arming_of_swap (h : Ran s i t o s') (hi : s.threads[i]? = some t)
    (ht : t.pc.Steady key ttl seen s.now) {job : Job} {staged : Staged} {fetchedAt : ℕ}
    (hpc : t.pc = .swap job staged fetchedAt) (ho : (t.under s.now o).applied = true)
    (hexist : stagedChunksExist s.redis.chunks s.now job.spec.key staged.generation
      (chunkCount staged.response.body) = true) (hlost : t.under s.now o ≠ .lost) :
    ∃ t', s'.threads[i]? = some t' ∧ t'.pc.arming job.spec.key := by
  rw [hpc] at ht
  cases h with
  | move hpc' hm =>
    rw [hpc] at hpc'
    subst hpc'
    cases hm with
    | swapFailed hfail =>
      rw [ho, hexist] at hfail
      rcases hfail with hfail | hfail <;> cases hfail
  | swapLost _ _ ho => exact absurd ho hlost
  | swapFirst hpc' =>
    rw [hpc] at hpc'
    cases hpc'
    exact ⟨_, getElem?_set_of_some hi, Job.arming_published ht.1⟩
  | swapWaits hpc' =>
    rw [hpc] at hpc'
    cases hpc'
    exact ⟨_, getElem?_set_of_some hi,
      Pc.arming_expireGenerationFallback (Job.arming_published ht.1)⟩
  | swapClears hpc' =>
    rw [hpc] at hpc'
    cases hpc'
    exact ⟨_, getElem?_set_of_some hi, Pc.arming_cleanupGeneration (Job.arming_published ht.1)⟩
  | _ hpc' =>
    rw [hpc] at hpc'
    cases hpc'

/-- The entry of the key stays, or the section is the publish script, after which the timer is
armed unless the reply is lost. -/
theorem Ran.keeps_or_swaps (h : Ran s i t o s') (hi : s.threads[i]? = some t)
    (ht : t.pc.Steady key ttl seen s.now) :
    s'.redis.loadManifest key = s.redis.loadManifest key ∨
      ∃ job staged fetchedAt, t.pc = .swap job staged fetchedAt ∧ job.spec.key = key ∧
        s'.redis.loadManifest key = some (job.manifest staged fetchedAt) ∧
        (t.under s.now o ≠ .lost → ∃ t', s'.threads[i]? = some t' ∧ t'.pc.arming key) := by
  rcases h.hash with hhash | ⟨job, staged, fetchedAt, hpc, ho, hexist, hhash⟩ | ⟨k, hpc, -⟩
  · refine .inl ?_
    rw [Redis.loadManifest, hhash]
    rfl
  · by_cases hkey : key = job.spec.key
    · subst hkey
      refine .inr ⟨job, staged, fetchedAt, hpc, rfl, ?_, h.arming_of_swap hi ht hpc ho hexist⟩
      rw [Redis.loadManifest, hhash, Function.update_self]
      rfl
    · refine .inl ?_
      rw [Redis.loadManifest, hhash, Function.update_of_ne hkey]
      rfl
  · rcases hpc with ⟨opID, m, hpc⟩ | hpc
    · rw [hpc] at ht
      exact ht.elim
    · rw [hpc] at ht
      exact ht.elim

/-- Who is about to arm the timer arms it, or is still about to. -/
theorem Ran.arming (h : Ran s i t o s') (hi : s.threads[i]? = some t) (ha : t.pc.arming key) :
    (∃ spec delay next, t.pc = .schedule spec delay next ∧ spec.key = key) ∨
      ∃ t', s'.threads[i]? = some t' ∧ t'.pc.arming key := by
  cases h with
  | move hpc hm =>
    rw [hpc] at ha
    refine .inr ⟨_, getElem?_set_of_some hi, ?_⟩
    cases hm with
    | cleanupFailed | expireFailed =>
      dsimp only
      split
      · exact ha
      · exact ha.2
    | _ => exact ha.elim
  | cleanup hpc | expire hpc =>
    rw [hpc] at ha
    refine .inr ⟨_, getElem?_set_of_some hi, ?_⟩
    dsimp only
    split
    · exact ha
    · exact ha.2
  | @schedule spec delay next hpc =>
    rw [hpc] at ha
    refine .inl ⟨spec, delay, next, hpc, ?_⟩
    cases next with
    | unlock => exact ha
    | _ => exact ha.elim
  | _ hpc =>
    rw [hpc] at ha
    exact ha.elim

end Ran

/-! ## The invariant -/

/-- When an entry was fetched and when it expires, to a second. -/
structure EntryMeta.Dated (ttl : ℤ) (now : ℕ) (info : EntryMeta) : Prop where
  /-- it was not fetched in the future -/
  past : info.fetchedAt * second ≤ now
  /-- it lives as long as it should -/
  span : info.fetchedAt * second + thresholdDelay ttl + refreshThreshold ttl ≤
    info.expiresAt * second + second

theorem Job.dated {job : Job} {ttl : ℤ} (httl : job.spec.ttl = ttl) (staged : Staged)
    {fetchedAt now : ℕ} (hnow : fetchedAt ≤ now) :
    (job.manifest staged fetchedAt).info.Dated ttl now := by
  subst httl
  have hsecond : (0 : ℤ) < second := by decide
  have hfetched := Int.ediv_mul_le (fetchedAt : ℤ) (Int.ne_of_gt hsecond)
  have hexpires := Int.lt_ediv_add_one_mul_self (fetchedAt + job.spec.ttl) hsecond
  rw [Int.add_mul, Int.one_mul] at hexpires
  constructor
  · change unix fetchedAt * second ≤ now
    rw [unix]
    omega
  · change unix fetchedAt * second + thresholdDelay job.spec.ttl + refreshThreshold job.spec.ttl ≤
      (fetchedAt + job.spec.ttl) / second * second + second
    rw [unix, thresholdDelay, refreshThreshold]
    omega

/-- When a timer fires, or now if it has fired. -/
def Timer.time (tm : Timer) (now : ℕ) : ℕ := if tm.pending then tm.due else now

/-- What holds in every run in which refreshes are paced. -/
structure Watch.Inv (key : String) (ttl : ℤ) (w : Watch) : Prop where
  /-- what the operations know -/
  threads : ∀ (j : ℕ) (u : Thread Unit), w.state.threads[j]? = some u →
    u.pc.Steady key ttl (w.seen j) w.state.now
  /-- what the memory knows -/
  specs : (w.state.mgr ()).Fixed key ttl
  /-- the dates of the entry -/
  dated : ∀ m, w.state.redis.loadManifest key = some m → m.info.Dated ttl w.state.now
  /-- the timer is not due too early, unless it is about to be armed anew -/
  timely : (∃ (j : ℕ) (u : Thread Unit), w.state.threads[j]? = some u ∧ u.pc.arming key) ∨
    ∀ m tm, w.state.redis.loadManifest key = some m → (w.state.mgr ()).timers key = some tm →
      m.info.fetchedAt * second + thresholdDelay ttl ≤ tm.time w.state.now + second
  /-- nor before the end of the wait -/
  waits : (∃ (j : ℕ) (u : Thread Unit), w.state.threads[j]? = some u ∧ u.pc.retries key = true) ∨
    ∀ tm, (w.state.mgr ()).timers key = some tm → tm.pending = true → w.quiet ≤ tm.due
  /-- the wait is not longer than a delay -/
  quiet : w.quiet ≤ w.state.now + (retryDelay ttl).toNat
  /-- no refresh has begun before the end of a wait -/
  early : w.early = false

section Inv

variable {key : String} {ttl : ℤ} {w : Watch} {s' : State Unit} {i : ℕ} {t : Thread Unit}
  {o : Outcome}

theorem Pc.schedule_of_retries {pc : Pc} (h : pc.retries key = true) :
    ∃ spec delay next, pc = .schedule spec delay next ∧ spec.key = key := by
  unfold Pc.retries at h
  split at h
  · exact ⟨_, _, _, rfl, of_decide_eq_true h⟩
  · cases h

theorem Pc.key_of_retries {pc : Pc} (h : pc.retries key = true) : pc.key = some key := by
  obtain ⟨spec, delay, next, rfl, hkey⟩ := schedule_of_retries h
  exact congrArg some hkey

theorem Pc.Steady.fixed_of_puts {seen : Option Manifest} {now : ℕ} {pc : Pc} {spec : Spec}
    (h : pc.Steady key ttl seen now) (hputs : pc.Puts spec) : spec.Fixed key ttl := by
  cases pc with
  | getRegister | schedule =>
    obtain rfl := hputs
    exact h.1
  | warm =>
    obtain rfl := hputs
    exact h
  | register | migrateRegister => exact h.elim
  | _ => exact hputs.elim

theorem Call.steady_entry {call : Call} (h : call.fixed key ttl) {seen : Option Manifest}
    {now : ℕ} : call.entry.Steady key ttl seen now := by
  have hcall := call.enters
  generalize call.entry = pc at hcall
  cases hcall with
  | done | bypass | purge => trivial
  | get => exact ⟨rfl, h⟩
  | warm => exact h
  | _ => exact h.elim

theorem Watch.Inv.specs_step (h : w.Inv key ttl) {a : Action Unit} (hs : Steps w.state a s') :
    (s'.mgr ()).Fixed key ttl := by
  refine hs.all (fun _ => h.specs) (fun u hu spec hputs => ?_) ()
  obtain ⟨j, hj⟩ := List.getElem?_of_mem hu
  exact ⟨rfl, (h.threads j u hj).fixed_of_puts hputs⟩

/-- A step that leaves the memory, Redis and the operations on the key as they are. -/
theorem Watch.Inv.frame (h : w.Inv key ttl) (hmgr : s'.mgr = w.state.mgr)
    (hredis : s'.redis = w.state.redis) (hnow : w.state.now ≤ s'.now)
    (hthreads : ∀ (j : ℕ) (u : Thread Unit), s'.threads[j]? = some u →
      u.pc.Steady key ttl (w.seen j) s'.now)
    (hkeep : ∀ (j : ℕ) (u : Thread Unit), w.state.threads[j]? = some u → u.pc.key = some key →
      ∃ u' : Thread Unit, s'.threads[j]? = some u' ∧ u'.pc = u.pc) :
    ({ w with state := s' } : Watch).Inv key ttl where
  threads := hthreads
  specs := by
    change (s'.mgr ()).Fixed key ttl
    rw [hmgr]
    exact h.specs
  dated m hm := by
    change s'.redis.loadManifest key = some m at hm
    rw [hredis] at hm
    have hpast := (h.dated m hm).past
    refine ⟨?_, (h.dated m hm).span⟩
    change m.info.fetchedAt * second ≤ s'.now
    omega
  timely := by
    rcases h.timely with ⟨j, u, hj, ha⟩ | hall
    · obtain ⟨u', hj', hpc⟩ := hkeep j u hj (Pc.key_of_arming ha)
      exact .inl ⟨j, u', hj', by rw [hpc]; exact ha⟩
    · refine .inr fun m tm hm htm => ?_
      change s'.redis.loadManifest key = some m at hm
      change (s'.mgr ()).timers key = some tm at htm
      rw [hredis] at hm
      rw [hmgr] at htm
      have hdue := hall m tm hm htm
      have htime : tm.time w.state.now ≤ tm.time s'.now := by
        rw [Timer.time, Timer.time]
        split <;> omega
      change m.info.fetchedAt * second + thresholdDelay ttl ≤ tm.time s'.now + second
      omega
  waits := by
    rcases h.waits with ⟨j, u, hj, hr⟩ | hall
    · obtain ⟨u', hj', hpc⟩ := hkeep j u hj (Pc.key_of_retries hr)
      exact .inl ⟨j, u', hj', by rw [hpc]; exact hr⟩
    · refine .inr fun tm htm => hall tm ?_
      change (s'.mgr ()).timers key = some tm at htm
      rw [hmgr] at htm
      exact htm
  quiet := Nat.le_trans h.quiet (Nat.add_le_add_right hnow _)
  early := h.early

/-- The wait gets longer only if a refresh has failed. -/
theorem Watch.wait_cases (key : String) (ttl : ℤ) (w : Watch) (i : ℕ) (s' : State Unit) :
    w.wait key ttl i s' ≤ w.quiet ∨
      (w.wait key ttl i s' ≤ max w.quiet (w.state.now + (retryDelay ttl).toNat) ∧
        ∃ t', s'.threads[i]? = some t' ∧ t'.pc.retries key = true) := by
  have hquiet : (if pulled key w.state s' then 0 else w.quiet) ≤ w.quiet := by
    split <;> omega
  rw [Watch.wait]
  split
  · next hretries =>
    refine .inr ⟨by omega, ?_⟩
    cases ht' : s'.threads[i]? with
    | none =>
      rw [ht'] at hretries
      cases hretries
    | some t' =>
      rw [ht'] at hretries
      exact ⟨t', rfl, hretries⟩
  · exact .inl hquiet

/-- The timer that a section arms is not due too early, if the section may arm it. -/
theorem Watch.Inv.due (h : w.Inv key ttl) (hi : w.state.threads[i]? = some t) {spec : Spec}
    {delay : ℤ} {next : Pc} (hpc : t.pc = .schedule spec delay next) (hkey : spec.key = key)
    (harms : w.Arms key i t.pc) {m : Manifest} (hm : w.state.redis.loadManifest key = some m) :
    (∃ (j : ℕ) (u : Thread Unit), j ≠ i ∧ w.state.threads[j]? = some u ∧ u.pc.arming key) ∨
      m.info.fetchedAt * second + thresholdDelay ttl ≤
        (w.state.now + delay.toNat : ℕ) + second := by
  have ht := h.threads i t hi
  rw [hpc] at ht harms
  obtain ⟨hspec, hdelay⟩ := ht
  rcases hdelay.cases with ⟨r, hit, rfl⟩ | ⟨e, rfl⟩ | ⟨k, opID, rfl⟩
  · -- what the hit has read is the active entry
    obtain ⟨m', hseen, hdue⟩ := hdelay hkey
    rw [(harms hkey).1, hm] at hseen
    obtain rfl := Option.some.inj hseen
    have hspan := (h.dated m hm).span
    refine .inr ?_
    omega
  · -- the timer that has started the refresh is still the last one
    obtain ⟨tm, htm, hfired⟩ := harms hkey
    rcases h.timely with ⟨j, u, hj, ha⟩ | hall
    · refine .inl ⟨j, u, ?_, hj, ha⟩
      rintro rfl
      rw [hi] at hj
      obtain rfl := Option.some.inj hj
      rw [hpc] at ha
      exact ha
    · have hdue := hall m tm hm htm
      rw [Timer.time, hfired, if_neg Bool.false_ne_true] at hdue
      refine .inr ?_
      omega
  · have hthreshold : delay = thresholdDelay spec.ttl := hdelay
    rw [hspec hkey] at hthreshold
    have hpast := (h.dated m hm).past
    refine .inr ?_
    omega

/-- Nor is it due before the end of the wait. -/
theorem Watch.Inv.quiet_le (hdelay : retryDelay ttl ≤ thresholdDelay ttl) (h : w.Inv key ttl)
    (hi : w.state.threads[i]? = some t) {spec : Spec} {delay : ℤ} {next : Pc}
    (hpc : t.pc = .schedule spec delay next) (hkey : spec.key = key)
    (harms : w.Arms key i t.pc) : w.quiet ≤ w.state.now + delay.toNat := by
  have ht := h.threads i t hi
  have hquiet := h.quiet
  rw [hpc] at ht harms
  obtain ⟨hspec, hwhy⟩ := ht
  rcases hwhy.cases with ⟨r, hit, rfl⟩ | ⟨e, rfl⟩ | ⟨k, opID, rfl⟩
  · exact Nat.le_trans (harms hkey).2 (Nat.le_add_right ..)
  · have hretry : delay = retryDelay spec.ttl := hwhy
    rw [hspec hkey] at hretry
    rw [hretry]
    exact hquiet
  · have hthreshold : delay = thresholdDelay spec.ttl := hwhy
    rw [hspec hkey] at hthreshold
    omega

/-- The timer after `schedule`. -/
theorem Ran.timer_scheduled {s : State Unit} (h : Ran s i t o s') {spec : Spec} {delay : ℤ}
    {next : Pc} (hpc : t.pc = .schedule spec delay next) (hkey : spec.key = key) :
    (s'.mgr ()).timers key = some ⟨spec, s.now + delay.toNat, true⟩ := by
  subst hkey
  rw [h.scheduled hpc]
  change ((Function.update s.mgr t.pid _) t.pid).timers spec.key = _
  rw [Function.update_self]
  exact Function.update_self ..

theorem Watch.Inv.timely_run (h : w.Inv key ttl) (hi : w.state.threads[i]? = some t)
    (harms : w.Arms key i t.pc)
    (hlost : t.pc.swaps key = true → t.under w.state.now o ≠ .lost) (hr : Ran w.state i t o s') :
    (∃ (j : ℕ) (u : Thread Unit), s'.threads[j]? = some u ∧ u.pc.arming key) ∨
      ∀ m tm, s'.redis.loadManifest key = some m → (s'.mgr ()).timers key = some tm →
        m.info.fetchedAt * second + thresholdDelay ttl ≤ tm.time s'.now + second := by
  have ht := h.threads i t hi
  rcases hr.keeps_or_swaps hi ht with hentry | ⟨job, staged, fetchedAt, hpc, hkey, -, harming⟩
  · by_cases hschedule : ∃ spec delay next, t.pc = .schedule spec delay next ∧ spec.key = key
    · obtain ⟨spec, delay, next, hpc, hkey⟩ := hschedule
      by_cases hothers : ∃ (j : ℕ) (u : Thread Unit), j ≠ i ∧ w.state.threads[j]? = some u ∧
          u.pc.arming key
      · obtain ⟨j, u, hji, hj, ha⟩ := hothers
        exact .inl ⟨j, u, hr.other hji hj, ha⟩
      · refine .inr fun m tm hm htm => ?_
        rw [hentry] at hm
        rw [hr.timer_scheduled hpc hkey] at htm
        obtain rfl := Option.some.inj htm
        exact (h.due hi hpc hkey harms hm).resolve_left hothers
    · rcases h.timely with ⟨j, u, hj, ha⟩ | hall
      · by_cases hji : j = i
        · subst hji
          rw [hi] at hj
          obtain rfl := Option.some.inj hj
          obtain ⟨t', hi', ha'⟩ := (hr.arming hi ha).resolve_left hschedule
          exact .inl ⟨j, t', hi', ha'⟩
        · exact .inl ⟨j, u, hr.other hji hj, ha⟩
      · refine .inr fun m tm hm htm => ?_
        rw [hentry] at hm
        rw [(hr.timer ht).resolve_right hschedule] at htm
        rw [hr.now]
        exact hall m tm hm htm
  · have hswaps : t.pc.swaps key = true := by
      rw [hpc]
      exact decide_eq_true hkey
    obtain ⟨t', hi', ha⟩ := harming (hlost hswaps)
    exact .inl ⟨i, t', hi', ha⟩

theorem Watch.Inv.waits_run (hdelay : retryDelay ttl ≤ thresholdDelay ttl) (h : w.Inv key ttl)
    (hi : w.state.threads[i]? = some t) (harms : w.Arms key i t.pc) (hr : Ran w.state i t o s') :
    (∃ (j : ℕ) (u : Thread Unit), s'.threads[j]? = some u ∧ u.pc.retries key = true) ∨
      ∀ tm, (s'.mgr ()).timers key = some tm → tm.pending = true →
        w.wait key ttl i s' ≤ tm.due := by
  rcases w.wait_cases key ttl i s' with hwait | ⟨-, t', hi', hretries⟩
  · by_cases hschedule : ∃ spec delay next, t.pc = .schedule spec delay next ∧ spec.key = key
    · obtain ⟨spec, delay, next, hpc, hkey⟩ := hschedule
      refine .inr fun tm htm _ => ?_
      rw [hr.timer_scheduled hpc hkey] at htm
      obtain rfl := Option.some.inj htm
      exact Nat.le_trans hwait (h.quiet_le hdelay hi hpc hkey harms)
    · rcases h.waits with ⟨j, u, hj, hretries⟩ | hall
      · refine .inl ⟨j, u, hr.other ?_ hj, hretries⟩
        rintro rfl
        rw [hi] at hj
        obtain rfl := Option.some.inj hj
        exact hschedule (Pc.schedule_of_retries hretries)
      · refine .inr fun tm htm hp => Nat.le_trans hwait (hall tm ?_ hp)
        rw [(hr.timer (h.threads i t hi)).resolve_right hschedule] at htm
        exact htm
  · exact .inl ⟨i, t', hi', hretries⟩

theorem Watch.Inv.run (hdelay : retryDelay ttl ≤ thresholdDelay ttl) (h : w.Inv key ttl)
    (hi : w.state.threads[i]? = some t) (harms : w.Arms key i t.pc)
    (hlost : t.pc.swaps key = true → t.under w.state.now o ≠ .lost) (hr : Ran w.state i t o s')
    {fetched : Option Response} (hsteps : Steps w.state (.run i o fetched) s') :
    ({ w with
      state := s'
      seen := w.read i
      quiet := w.wait key ttl i s' } : Watch).Inv key ttl where
  threads := by
    have hread : w.read i = Function.update w.seen i (t.pc.reads w.state (w.seen i)) := by
      rw [Watch.read, hi]
    obtain ⟨t', hthreads, ht'⟩ := hr.steady h.specs (h.threads i t hi)
    have hset : ∀ (j : ℕ) (u : Thread Unit), (w.state.threads.set i t')[j]? = some u →
        u.pc.Steady key ttl (w.read i j) s'.now := by
      intro j u hj
      rw [hread, hr.now]
      rcases getElem?_set_cases hj with ⟨rfl, rfl⟩ | ⟨hji, hj⟩
      · rw [Function.update_self]
        exact ht'
      · rw [Function.update_of_ne hji]
        exact h.threads j u hj
    intro j u hj
    change s'.threads[j]? = some u at hj
    rcases hthreads with heq | ⟨v, heq, hv⟩
    · rw [heq] at hj
      exact hset j u hj
    · rw [heq] at hj
      rcases getElem?_append_cases hj with hj | rfl
      · exact hset j u hj
      · have := hv (w.read i j)
        rw [← hr.now] at this
        exact this
  specs := h.specs_step hsteps
  dated m hm := by
    change m.info.Dated ttl s'.now
    rw [hr.now]
    rcases hr.keeps_or_swaps hi (h.threads i t hi) with
      hentry | ⟨job, staged, fetchedAt, hpc, hkey, heq, -⟩
    · exact h.dated m (hentry.symm.trans hm)
    · have ht := h.threads i t hi
      rw [hpc] at ht
      obtain rfl := Option.some.inj (heq.symm.trans hm)
      exact Job.dated (ht.2.1 hkey) staged ht.2.2
  timely := h.timely_run hi harms hlost hr
  waits := h.waits_run hdelay hi harms hr
  quiet := by
    change w.wait key ttl i s' ≤ s'.now + (retryDelay ttl).toNat
    have hquiet := h.quiet
    rw [hr.now]
    rcases w.wait_cases key ttl i s' with hwait | ⟨hwait, -⟩ <;> omega
  early := h.early

/-- Starting a thread keeps what the others are about to do. -/
theorem exists_spawned {Q : Thread Unit → Prop} {u : Thread Unit}
    (h : ∃ (j : ℕ) (v : Thread Unit), w.state.threads[j]? = some v ∧ Q v) :
    ∃ (j : ℕ) (v : Thread Unit), (w.state.threads ++ [u])[j]? = some v ∧ Q v := by
  obtain ⟨j, v, hj, hv⟩ := h
  exact ⟨j, v, getElem?_append_of_some hj, hv⟩

theorem Watch.Inv.fire (h : w.Inv key ttl) {k : String} {tm : Timer}
    (ha : k = key → ∀ t ∈ w.state.threads, t.pc.retries key = false)
    (htm : (w.state.mgr ()).timers k = some tm) (hp : tm.pending = true)
    (hdue : tm.due ≤ w.state.now) (hs : Steps w.state (.fire () k) s')
    (hmgr : ∀ key, (s'.mgr ()).timers key =
      Function.update (w.state.mgr ()).timers k (some { tm with pending := false }) key)
    (hredis : s'.redis = w.state.redis) (hnow : s'.now = w.state.now) {u : Thread Unit}
    (hthreads : s'.threads = w.state.threads ++ [u]) (hu : u.pc = .acquire tm.spec .refresh) :
    ({ w with
      state := s'
      early := w.early || (decide (k = key) && decide (w.state.now < w.quiet)) } : Watch).Inv key
        ttl where
  threads j v hj := by
    change s'.threads[j]? = some v at hj
    change v.pc.Steady key ttl (w.seen j) s'.now
    rw [hthreads] at hj
    rw [hnow]
    rcases getElem?_append_cases hj with hj | rfl
    · exact h.threads j v hj
    · rw [hu]
      exact ⟨trivial, (h.specs.timers htm).2⟩
  specs := h.specs_step hs
  dated m hm := by
    change s'.redis.loadManifest key = some m at hm
    change m.info.Dated ttl s'.now
    rw [hredis] at hm
    rw [hnow]
    exact h.dated m hm
  timely := by
    change (∃ (j : ℕ) (u : Thread Unit), s'.threads[j]? = some u ∧ u.pc.arming key) ∨
      ∀ m tm, s'.redis.loadManifest key = some m → (s'.mgr ()).timers key = some tm →
        m.info.fetchedAt * second + thresholdDelay ttl ≤ tm.time s'.now + second
    rw [hthreads, hredis, hnow]
    rcases h.timely with harming | hall
    · exact .inl (exists_spawned harming)
    · refine .inr fun m tm' hm htm' => ?_
      rw [hmgr] at htm'
      by_cases hkey : key = k
      · subst hkey
        rw [Function.update_self] at htm'
        obtain rfl := Option.some.inj htm'
        -- it fires now, when it is due
        have htime := hall m tm hm htm
        rw [Timer.time, if_pos hp] at htime
        change m.info.fetchedAt * second + thresholdDelay ttl ≤ w.state.now + second
        omega
      · rw [Function.update_of_ne hkey] at htm'
        exact hall m tm' hm htm'
  waits := by
    change (∃ (j : ℕ) (u : Thread Unit), s'.threads[j]? = some u ∧ u.pc.retries key = true) ∨
      ∀ tm, (s'.mgr ()).timers key = some tm → tm.pending = true → w.quiet ≤ tm.due
    rw [hthreads]
    rcases h.waits with hretries | hall
    · exact .inl (exists_spawned hretries)
    · refine .inr fun tm' htm' hp' => ?_
      rw [hmgr] at htm'
      by_cases hkey : key = k
      · subst hkey
        rw [Function.update_self] at htm'
        obtain rfl := Option.some.inj htm'
        cases hp'
      · rw [Function.update_of_ne hkey] at htm'
        exact hall tm' htm' hp'
  quiet := by
    change w.quiet ≤ s'.now + (retryDelay ttl).toNat
    rw [hnow]
    exact h.quiet
  early := by
    change (w.early || (decide (k = key) && decide (w.state.now < w.quiet))) = false
    rw [h.early, Bool.false_or, Bool.and_eq_false_imp]
    intro hkey
    obtain rfl := of_decide_eq_true hkey
    refine decide_eq_false fun hearly => ?_
    rcases h.waits with ⟨j, v, hj, hretries⟩ | hall
    · rw [ha rfl v (List.mem_of_getElem? hj)] at hretries
      cases hretries
    · have hquiet := hall tm htm hp
      omega

/-- One step of such a run. -/
theorem Watch.Inv.step (hdelay : retryDelay ttl ≤ thresholdDelay ttl) (h : w.Inv key ttl)
    {a : Action Unit} (ha : Steady key ttl w a) {w' : Watch}
    (hs : w.step key ttl a = some w') : w'.Inv key ttl := by
  obtain ⟨s', hs', rfl⟩ := Option.map_eq_some_iff.mp hs
  cases Steps.of_step hs' with
  | @start p call deadline =>
    refine h.frame rfl rfl (Nat.le_refl _) (fun j u hj => ?_) fun j u hj _ =>
      ⟨u, getElem?_append_of_some hj, rfl⟩
    rcases getElem?_append_cases hj with hj | rfl
    · exact h.threads j u hj
    · have hcall : call.fixed key ttl := ha
      exact Call.steady_entry hcall
  | run hi hr =>
    obtain ⟨harms, hlost⟩ := ha _ hi
    exact h.run hdelay hi harms hlost hr (Steps.of_step hs')
  | @fire p k tm htm hp hdue =>
    refine h.fire ha htm hp hdue (.fire htm hp hdue) (fun key' => ?_) rfl rfl rfl rfl
    exact congrArg (fun m : Manager => m.timers key') (Function.update_self () _ w.state.mgr)
  | @release i t r hit key' g hi hpc =>
    refine h.frame rfl rfl (Nat.le_refl _) (fun j u hj => ?_) fun j u hj hkey => ?_
    · rcases getElem?_set_cases hj with ⟨rfl, rfl⟩ | ⟨-, hj⟩
      · trivial
      · exact h.threads j u hj
    · refine ⟨u, ?_, rfl⟩
      change (w.state.threads.set i _)[j]? = some u
      rw [List.getElem?_set_ne ?_]
      · exact hj
      · rintro rfl
        rw [hi] at hj
        obtain rfl := Option.some.inj hj
        rw [hpc] at hkey
        cases hkey
  | releaseAgain => exact h
  | @cancel i t hi =>
    refine h.frame rfl rfl (Nat.le_refl _) (fun j u hj => ?_) fun j u hj _ => ?_
    · rcases getElem?_set_cases hj with ⟨rfl, rfl⟩ | ⟨-, hj⟩
      · exact h.threads j t hi
      · exact h.threads j u hj
    · by_cases hji : j = i
      · subst hji
        rw [hi] at hj
        obtain rfl := Option.some.inj hj
        exact ⟨_, getElem?_set_of_some hi, rfl⟩
      · refine ⟨u, ?_, rfl⟩
        change (w.state.threads.set i _)[j]? = some u
        rw [List.getElem?_set_ne (Ne.symm hji)]
        exact hj
  | @tick d =>
    refine h.frame rfl rfl (Nat.le_add_right ..) (fun j u hj => ?_) fun j u hj _ => ⟨u, hj, rfl⟩
    exact (h.threads j u hj).mono (Nat.le_add_right ..)
  | restart => exact ha.elim

theorem Watch.Inv.kept (h : w.Inv key ttl) : w.Kept key ttl := by
  refine ⟨h.early, fun hidle tm m htm hp hm => ?_⟩
  rcases h.timely with ⟨j, u, hj, ha⟩ | hall
  · exact absurd (Pc.key_of_arming ha) (hidle u (List.mem_of_getElem? hj))
  · have hdue := hall m tm hm htm
    rw [Timer.time, if_pos hp] at hdue
    exact hdue

end Inv

theorem Watch.inv_init (key : String) (ttl : ℤ) : Watch.init.Inv key ttl where
  threads j u hj := by cases hj
  specs := ⟨(fun h => by cases h), fun h => by cases h⟩
  dated m hm := by cases hm
  timely := .inr fun m tm hm => by cases hm
  waits := .inr fun tm htm => by cases htm
  quiet := Nat.zero_le _
  early := rfl

/-- **Refreshes are paced** in every run of requests, explicit pulls and timers in which a hit arms
the timer only from the active entry and not while a failed refresh waits, and a failed refresh arms
it only if nobody else has done so since it began; for every lifetime of which 70 % are no shorter
than `retryDelay`. -/
theorem refreshes_paced {key : String} {ttl : ℤ} (hdelay : retryDelay ttl ≤ thresholdDelay ttl)
    {w : Watch} (h : Run (Watch.step key ttl) (Steady key ttl) Watch.init w) : w.Kept key ttl :=
  Watch.Inv.kept (h.invariant (I := Watch.Inv key ttl)
    (fun _ _ _ hw ha hs => hw.step hdelay ha hs) (Watch.inv_init key ttl))

/-! ## A failed refresh, and a request -/

instance (key : String) (ttl : ℤ) : (call : Call) → Decidable (call.fixed key ttl)
  | .getOrFetch spec => inferInstanceAs (Decidable (spec.normalized.key = key → _))
  | .warm spec => inferInstanceAs (Decidable (spec.normalized.key = key → _))
  | .purge _ => inferInstanceAs (Decidable True)
  | .register _ | .remove _ | .migrateLegacy _ _ => inferInstanceAs (Decidable False)

/-- Any request, pull or timer with the one lifetime of the key, while Redis answers. -/
def Action.fixed (key : String) (ttl : ℤ) : Action Unit → Prop
  | .start _ call _ => call.fixed key ttl
  | .run _ o _ => o = .ok
  | .restart _ => False
  | _ => True

instance (key : String) (ttl : ℤ) : (a : Action Unit) → Decidable (a.fixed key ttl)
  | .start _ call _ => inferInstanceAs (Decidable (call.fixed key ttl))
  | .run _ o _ => inferInstanceAs (Decidable (o = .ok))
  | .restart _ => inferInstanceAs (Decidable False)
  | .fire .. | .release .. | .cancel .. | .tick .. => inferInstanceAs (Decidable True)

/-- `Warm` publishes, 70 % of the lifetime go by, and the refresh fails. -/
def refreshFails : List (Action Unit) :=
  warmArms ++ [.tick (42 * minute), .fire () "iptv:cache:p:e", .run 1 .ok none, .run 1 .ok none,
    .run 1 .ok none, .run 1 .ok none, .run 1 .ok none]

/-- A request hits, and the timer fires. -/
def hitAfterFailure : List (Action Unit) :=
  refreshFails ++ [.start () (.getOrFetch sampleSpec) none, .run 2 .ok none, .run 2 .ok none,
    .run 2 .ok none, .run 2 .ok none, .run 2 .ok none, .fire () "iptv:cache:p:e"]

/-- A request reads the entry, `Warm` publishes another one, and the request arms the timer. -/
def hitAcrossWarm : List (Action Unit) :=
  warmArms ++ [.tick (30 * minute), .start () (.getOrFetch sampleSpec) none, .run 1 .ok none,
    .run 1 .ok none, .run 1 .ok none, .run 1 .ok none, .start () (.warm sampleSpec) none,
    .run 2 .ok none, .run 2 .ok none, .run 2 .ok none, .run 2 .ok (some sampleResponse),
    .run 2 .ok none, .run 2 .ok none, .run 2 .ok none, .run 2 .ok none, .run 2 .ok none,
    .run 2 .ok none, .run 1 .ok none]

/-- A test: no operation on the key is in flight, and its timer is due too early. -/
def Watch.dueEarly (key : String) (ttl : ℤ) (w : Watch) : Bool :=
  (w.state.threads.all fun t => decide (t.pc.key ≠ some key)) &&
    ((w.state.mgr ()).timers key).any fun tm => tm.pending &&
      (w.state.redis.loadManifest key).any fun m =>
        decide (tm.due + second < m.info.fetchedAt * second + thresholdDelay ttl)

theorem not_kept_of_dueEarly {key : String} {ttl : ℤ} {w : Watch}
    (h : w.dueEarly key ttl = true) : ¬ w.Kept key ttl := by
  intro hkept
  rw [Watch.dueEarly, Bool.and_eq_true, List.all_eq_true] at h
  obtain ⟨hidle, htimer⟩ := h
  cases htm : (w.state.mgr ()).timers key with
  | none =>
    rw [htm] at htimer
    cases htimer
  | some tm =>
    rw [htm, Option.any_some, Bool.and_eq_true] at htimer
    obtain ⟨hpending, hentry⟩ := htimer
    cases hm : w.state.redis.loadManifest key with
    | none =>
      rw [hm] at hentry
      cases hentry
    | some m =>
      rw [hm, Option.any_some] at hentry
      have hpaced := hkept.2 (fun t ht => of_decide_eq_true (hidle t ht)) tm m htm hpending hm
      exact absurd (of_decide_eq_true hentry) (by omega)

/-- **The claim fails**: a hit on the stale entry starts a refresh at once, while a failed one
should wait, and a hit that has read the last entry lets the timer of the new one fire too early. -/
theorem hit_ends_wait :
    (∃ w : Watch, Run (Watch.step sampleSpec.key hour)
      (fun _ a => a.fixed sampleSpec.key hour) Watch.init w ∧ w.early = true ∧
      ¬ w.Kept sampleSpec.key hour) ∧
    ∃ w : Watch, Run (Watch.step sampleSpec.key hour)
      (fun _ a => a.fixed sampleSpec.key hour) Watch.init w ∧ w.early = false ∧
      ¬ w.Kept sampleSpec.key hour := by
  constructor
  · have hok : ∀ a ∈ hitAfterFailure, ∀ _ : Watch, a.fixed sampleSpec.key hour := by
      have : ∀ a ∈ hitAfterFailure, a.fixed sampleSpec.key hour := by decide +kernel
      exact fun a ha _ => this a ha
    have h : (exec (Watch.step sampleSpec.key hour) Watch.init hitAfterFailure).map Watch.early =
        some true := by decide +kernel
    obtain ⟨w, hrun, hearly⟩ := Run.of_eval hok h
    refine ⟨w, hrun, hearly, fun hkept => ?_⟩
    rw [hkept.1] at hearly
    cases hearly
  · have hok : ∀ a ∈ hitAcrossWarm, ∀ _ : Watch, a.fixed sampleSpec.key hour := by
      have : ∀ a ∈ hitAcrossWarm, a.fixed sampleSpec.key hour := by decide +kernel
      exact fun a ha _ => this a ha
    have h : (exec (Watch.step sampleSpec.key hour) Watch.init hitAcrossWarm).map (fun w =>
        (w.early, w.dueEarly sampleSpec.key hour)) = some (false, true) := by decide +kernel
    obtain ⟨w, hrun, hobs⟩ := Run.of_eval hok h
    obtain ⟨hearly, hdue⟩ := Prod.mk.inj hobs
    exact ⟨w, hrun, hearly, not_kept_of_dueEarly hdue⟩

/-- The refresh fails, and after the wait there is another one. -/
def refreshesAgain : List (Action Unit) :=
  refreshFails ++ [.tick (3 * minute), .fire () "iptv:cache:p:e"]

/-- A test for `Steady` along that run: nobody hits, and a refresh that has failed finds its timer
fired. -/
def steady (w : Watch) : Action Unit → Bool
  | .start _ call _ => decide (call.fixed sampleSpec.key hour)
  | .run i o _ => o = .ok && (w.state.threads[i]?).all fun t =>
      match t.pc with
      | .schedule _ _ (.returned (.response _ _)) => false
      | .schedule _ _ (.returned (.error _)) =>
        ((w.state.mgr ()).timers "iptv:cache:p:e").any fun tm => !tm.pending
      | _ => true
  | .fire _ _ => w.state.threads.all fun t => !t.pc.retries "iptv:cache:p:e"
  | .tick _ => true
  | _ => false

theorem steady_sound (w : Watch) (a : Action Unit) (h : steady w a = true) :
    Steady sampleSpec.key hour w a := by
  cases a with
  | start p call deadline => exact (of_decide_eq_true h : call.fixed sampleSpec.key hour)
  | run i o fetched =>
    intro t hi
    rw [steady, hi, Bool.and_eq_true, Option.all_some] at h
    obtain ⟨ho, h⟩ := h
    obtain rfl := of_decide_eq_true ho
    refine ⟨?_, fun _ => ?_⟩
    · cases hpc : t.pc with
      | schedule spec delay next =>
        rw [hpc] at h
        cases next with
        | returned r =>
          cases r with
          | response => cases h
          | error e =>
            intro _
            cases htm : (w.state.mgr ()).timers sampleSpec.key with
            | none =>
              rw [show sampleSpec.key = "iptv:cache:p:e" from rfl] at htm
              rw [htm] at h
              cases h
            | some tm =>
              rw [show sampleSpec.key = "iptv:cache:p:e" from rfl] at htm
              rw [htm] at h
              exact ⟨tm, rfl, Bool.not_eq_true' _ ▸ h⟩
          | ok => trivial
        | _ => trivial
      | _ => trivial
    · rw [Thread.under]
      split <;> decide
  | fire p k =>
    intro _ t ht
    exact Bool.not_eq_true' _ ▸ List.all_eq_true.mp h t ht
  | release => cases h
  | cancel => cases h
  | tick => trivial
  | restart => cases h

theorem refreshes_paced_again : retryDelay hour ≤ thresholdDelay hour ∧
    ∃ w : Watch, Run (Watch.step sampleSpec.key hour) (Steady sampleSpec.key hour) Watch.init w ∧
      w.Kept sampleSpec.key hour ∧ w.state.threads.length = 3 := by
  have hdelay : retryDelay hour ≤ thresholdDelay hour := by decide
  have h : (exec (fun w a => if steady w a then Watch.step sampleSpec.key hour w a else none)
      Watch.init refreshesAgain).map (fun w => w.state.threads.length) = some 3 := by
    decide +kernel
  obtain ⟨w, hrun, hlength⟩ := Run.of_tested steady_sound h
  exact ⟨hdelay, w, hrun, refreshes_paced hdelay hrun, hlength⟩

end IptvProxy.Cache
