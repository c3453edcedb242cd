import IptvProxy.Cache.Upkeep

/-!
# The configured lifetime

The lifetime of an entry is the `CacheDurationHours` of its provider when the spec was made
(`newCacheSpec`), or the `TTLSeconds` of the manifest the spec was restored from
(`RehydratePersistedCache`). The cache keeps a spec as long as its key is registered, a timer hands
it to its own refresh, and a publication writes its lifetime into the manifest: nobody asks for the
duration again. So a new duration is honoured if the cache had no other one to keep
(`lifetime_is_honoured`), and not otherwise (`lifetime_is_kept`).
-/

namespace IptvProxy.Cache

open Agents Transition

/-! ## The specs of the cache -/

section Specs

variable {s s' : State Unit} {i : ℕ} {t : Thread Unit} {o : Outcome} {pc pc' : Pc}
  {Q R : Spec → Prop}

/-- All specs an operation works with from here on have the property. A request with a disabled
cache leaves the cache alone. -/
def Pc.All (Q : Spec → Prop) : Pc → Prop
  | .get _ caller => Q caller.spec
  | .getBody _ _ caller => Q caller.spec
  | .getChunk _ _ _ _ _ caller => Q caller.spec
  | .releaseReader _ _ next => next.All Q
  | .cleanup _ _ _ _ _ next => next.All Q
  | .expire _ _ _ _ _ next => next.All Q
  | .getRegister spec _ => Q spec
  | .scheduleFromMeta spec _ next => Q spec ∧ next.All Q
  | .schedule spec _ next => Q spec ∧ next.All Q
  | .refillMissing spec => Q spec
  | .registerLoad spec next => Q spec ∧ next.All Q
  | .register spec _ next => Q spec ∧ next.All Q
  | .warm spec => Q spec
  | .acquire spec _ => Q spec
  | .loadOld job => Q job.spec
  | .fetch job => Q job.spec
  | .writeChunk job _ _ => Q job.spec
  | .stamp job _ => Q job.spec
  | .swap job _ _ => Q job.spec
  | .unlock _ _ next => next.All Q
  | .migrateLoad _ spec => Q spec
  | .migratePublish _ spec _ => Q spec
  | .migrateRegister _ spec => Q spec
  | _ => True

/-- All specs of the cache have the property: the registered ones, those of the timers, and those of
the operations in flight. -/
structure State.All (Q : Spec → Prop) (s : State Unit) : Prop where
  /-- in the memory -/
  mgr : ∀ p, (s.mgr p).All fun _ spec => Q spec
  /-- in flight -/
  threads : ∀ t ∈ s.threads, t.pc.All Q

theorem Pc.All.and_imp (h : pc.All Q) (h' : pc.All R) {T : Spec → Prop}
    (hT : ∀ spec, Q spec → R spec → T spec) : pc.All T := by
  induction pc with
  | releaseReader _ _ next ih | cleanup _ _ _ _ _ next ih | expire _ _ _ _ _ next ih
  | unlock _ _ next ih => exact ih h h'
  | scheduleFromMeta _ _ next ih | schedule _ _ next ih | registerLoad _ next ih
  | register _ _ next ih => exact ⟨hT _ h.1 h'.1, ih h.2 h'.2⟩
  | get | getBody | getChunk | getRegister | refillMissing | warm | acquire | loadOld | fetch
  | writeChunk | stamp | swap | migrateLoad | migratePublish | migrateRegister => exact hT _ h h'
  | _ => trivial

theorem State.All.and_imp (h : s.All Q) (h' : s.All R) {T : Spec → Prop}
    (hT : ∀ spec, Q spec → R spec → T spec) : s.All T where
  mgr p := by
    refine ⟨fun hspec => ?_, fun htm => ?_⟩
    · exact hT _ ((h.mgr p).specs hspec) ((h'.mgr p).specs hspec)
    · exact hT _ ((h.mgr p).timers htm) ((h'.mgr p).timers htm)
  threads t ht := (h.threads t ht).and_imp (h'.threads t ht) hT

theorem State.All.mono (h : s.All Q) (hQ : ∀ spec, Q spec → R spec) : s.All R :=
  h.and_imp h fun spec hspec _ => hQ spec hspec

theorem Pc.puts_of_all (h : pc.All Q) {spec : Spec} (hspec : pc.Puts spec) : Q spec := by
  cases pc with
  | getRegister | warm | migrateRegister =>
    obtain rfl := hspec
    exact h
  | schedule | register =>
    obtain rfl := hspec
    exact h.1
  | _ => exact hspec.elim

/-! ### One step -/

theorem Pc.all_cleanupGeneration (h : pc.All Q) (key : String) (g n : ℕ) (background : Bool) :
    (Pc.cleanupGeneration key g n background pc).All Q := by
  rw [Pc.cleanupGeneration]
  split <;> exact h

theorem Pc.all_expireGenerationFallback (h : pc.All Q) (key : String) (g n : ℕ)
    (background : Bool) : (Pc.expireGenerationFallback key g n background pc).All Q := by
  rw [Pc.expireGenerationFallback]
  split <;> exact h

theorem Operation.all_failed {operation : Operation} {spec : Spec} (h : Q spec) (e : Error) :
    (operation.failed spec e).All Q := by
  cases operation with
  | refresh => exact ⟨h, trivial⟩
  | _ => trivial

theorem Job.all_failed {job : Job} (h : Q job.spec) (e : Error) : (job.failed e).All Q := by
  rw [Job.failed]
  split
  · trivial
  · exact Operation.all_failed h e

theorem Job.all_published {job : Job} (h : Q job.spec) : job.published.All Q := by
  rw [Job.published]
  split
  · exact h
  · exact ⟨h, trivial⟩

theorem Job.all_staging {job : Job} (h : Q job.spec) (staged : Staged) (n : ℕ) :
    (job.staging staged n).All Q := by
  rw [Job.staging]
  split <;> exact h

theorem GetCaller.all_found {caller : GetCaller} (h : Q caller.spec) (key : String) (m : Manifest)
    (r : Response) : (caller.found key m r).All Q := by
  cases caller <;> exact h

theorem GetCaller.all_notFound {caller : GetCaller} (h : Q caller.spec) :
    caller.notFound.All Q := by
  cases caller with
  | getOrFetch spec => exact h
  | migrate spec => trivial

theorem all_registerEntry {spec : Spec} (h : Q spec) (hpc : pc.All Q) :
    (registerEntry spec pc).All Q := by
  rw [registerEntry]
  split
  · trivial
  · split
    · exact hpc
    · exact ⟨h, hpc⟩

theorem Moves.all (h : Moves s t o pc pc') (hpc : pc.All Q) : pc'.All Q := by
  cases h with
  | getMissing | getBodyMissing => exact GetCaller.all_notFound hpc
  | getBodyFound | getChunkDone => exact GetCaller.all_found hpc ..
  | getLegacy | getChunkNext | scheduleFromMeta | registerLoadFound | loadOldFill | loadOld |
    stamp | unlockFailed => exact hpc
  | cleanupFailed | expireFailed => split <;> exact hpc
  | loadOldFailed | fetchFailed => exact Job.all_failed hpc _
  | writeChunkFailed | swapFailed => exact Pc.all_cleanupGeneration (Job.all_failed hpc _) ..
  | migrateLoadFound => exact all_registerEntry hpc trivial
  | migrateLoadMissing => exact hpc
  | duplicateLoadSome =>
    refine Pc.all_cleanupGeneration ?_ ..
    trivial
  | _ => trivial

/-- The specs of the thread that executes a section, and of a refill it starts. -/
theorem Ran.all_threads (h : Ran s i t o s') (hall : s.All Q) (ht : t.pc.All Q) :
    ∀ u ∈ s'.threads, u.pc.All Q := by
  have hset : ∀ {u : Thread Unit}, u.pc.All Q → ∀ v ∈ s.threads.set i u, v.pc.All Q := by
    intro u hu v hv
    rcases List.mem_or_eq_of_mem_set hv with hv | rfl
    · exact hall.threads v hv
    · exact hu
  have hactive : ∀ {spec : Spec}, Q spec → Q ((s.mgr t.pid).registerIfAbsent spec).1 :=
    fun hspec => ((hall.mgr t.pid).registerIfAbsent hspec).2
  have hattempted : ∀ {key : String} {applied : Bool} {u : Thread Unit}, u.pc.All Q →
      ∀ v ∈ (s.attempted key applied).threads.set i u, v.pc.All Q := by
    intro key applied u hu
    rw [State.attempted_threads]
    exact hset hu
  cases h with
  | move hpc hm =>
    rw [hpc] at ht
    exact hset (hm.all ht)
  | pin hpc | refill hpc | register hpc =>
    rw [hpc] at ht
    exact hset ht
  | @unpin key g next hpc =>
    rw [hpc] at ht
    have hnext : next.All Q := ht
    refine hset ?_
    dsimp only
    split
    · exact hnext
    · exact Pc.all_cleanupGeneration hnext ..
  | cleanup hpc | expire hpc =>
    rw [hpc] at ht
    refine hset ?_
    dsimp only
    split <;> exact ht
  | registerHit hpc =>
    rw [hpc] at ht
    exact hset ⟨hactive ht, trivial⟩
  | registerMiss hpc =>
    rw [hpc] at ht
    intro u hu
    rcases List.mem_append.mp hu with hu | hu
    · refine hset ?_ u hu
      trivial
    · obtain rfl := List.mem_singleton.mp hu
      exact hactive ht
  | schedule hpc =>
    rw [hpc] at ht
    exact hset ht.2
  | warm hpc =>
    rw [hpc] at ht
    exact hset (hactive ht)
  | purge _ hspec => exact hset ((hall.mgr t.pid).specs hspec)
  | acquireFailed hpc =>
    rw [hpc] at ht
    exact hattempted (Operation.all_failed ht _)
  | acquired hpc =>
    rw [hpc] at ht
    exact hattempted ht
  | stage hpc | migratePublish hpc =>
    rw [hpc] at ht
    exact hset (Job.all_staging ht ..)
  | writeChunk hpc =>
    rw [hpc] at ht
    refine hset ?_
    dsimp only
    split
    · exact Job.all_staging ht ..
    · exact Pc.all_cleanupGeneration (Job.all_failed ht _) ..
  | swapLost hpc =>
    rw [hpc] at ht
    exact hset (Pc.all_cleanupGeneration (Job.all_failed ht _) ..)
  | swapFirst hpc =>
    rw [hpc] at ht
    exact hset (Job.all_published ht)
  | swapWaits hpc =>
    rw [hpc] at ht
    exact hset (Pc.all_expireGenerationFallback (Job.all_published ht) ..)
  | swapClears hpc =>
    rw [hpc] at ht
    exact hset (Pc.all_cleanupGeneration (Job.all_published ht) ..)
  | unlock hpc =>
    rw [hpc] at ht
    exact hset ht
  | removeAcquireFailed | removeAcquired => exact hattempted trivial
  | removeWaits =>
    refine hset (Pc.all_expireGenerationFallback ?_ ..)
    trivial
  | removeClears =>
    refine hset (Pc.all_cleanupGeneration ?_ ..)
    trivial
  | migrateRegister hpc =>
    rw [hpc] at ht
    exact hset ⟨ht, trivial⟩
  | removeLoad | removeDelFailed | removeDelLost | removeEmpty | duplicateForget
  | duplicateDel => exact hset trivial

/-- **One step** of the cache hands on the specs it has. New ones come in with a call. -/
theorem Steps.all_specs {a : Action Unit} (h : Steps s a s') (hall : s.All Q)
    (hcall : ∀ p call deadline, a = .start p call deadline → call.entry.All Q) : s'.All Q := by
  refine ⟨h.all hall.mgr fun t ht spec hspec => Pc.puts_of_all (hall.threads t ht) hspec, ?_⟩
  have hset : ∀ {i : ℕ} {u : Thread Unit}, u.pc.All Q → ∀ v ∈ s.threads.set i u, v.pc.All Q := by
    intro i u hu v hv
    rcases List.mem_or_eq_of_mem_set hv with hv | rfl
    · exact hall.threads v hv
    · exact hu
  have hspawn : ∀ {u : Thread Unit}, u.pc.All Q → ∀ v ∈ s.threads ++ [u], v.pc.All Q := by
    intro u hu v hv
    rcases List.mem_append.mp hv with hv | hv
    · exact hall.threads v hv
    · obtain rfl := List.mem_singleton.mp hv
      exact hu
  cases h with
  | start => exact hspawn (hcall _ _ _ rfl)
  | run hi h => exact h.all_threads hall (hall.threads _ (List.mem_of_getElem? hi))
  | fire htm => exact hspawn ((hall.mgr _).timers htm)
  | release => exact hset trivial
  | releaseAgain | tick => exact hall.threads
  | cancel hi =>
    have ht := hall.threads _ (List.mem_of_getElem? hi)
    exact hset ht
  | restart =>
    intro u hu
    obtain ⟨v, hv, rfl⟩ := List.mem_map.mp hu
    split
    · trivial
    · exact hall.threads v hv

/-- An entry or a publication that is new was written for one of these specs. -/
theorem Ran.stores (h : Ran s i t o s') (ht : t.pc.All Q) :
    (∀ key m, s'.redis.loadManifest key = some m → s.redis.loadManifest key = some m ∨
      ∃ job staged fetchedAt, Q (Job.spec job) ∧ m = job.manifest staged fetchedAt) ∧
    ∀ p ∈ s'.published, p ∈ s.published ∨
      ∃ job staged fetchedAt, Q (Job.spec job) ∧ p.manifest = job.manifest staged fetchedAt := by
  constructor
  · intro key m hm
    rw [Redis.loadManifest] at hm
    rcases h.hash with hhash | ⟨job, staged, fetchedAt, hpc, -, -, hhash⟩ | ⟨key', -, hhash⟩
    · rw [hhash] at hm
      exact .inl hm
    · rw [hhash] at hm
      rw [hpc] at ht
      by_cases hkey : key = job.spec.key
      · rw [hkey, Function.update_self] at hm
        exact .inr ⟨job, staged, fetchedAt, ht, (Option.some.inj hm).symm⟩
      · rw [Function.update_of_ne hkey] at hm
        exact .inl hm
    · rw [hhash] at hm
      by_cases hkey : key = key'
      · rw [hkey, Function.update_self] at hm
        cases hm
      · rw [Function.update_of_ne hkey] at hm
        exact .inl hm
  · intro p hp
    cases h with
    | swapLost hpc | swapFirst hpc | swapWaits hpc | swapClears hpc =>
      rw [hpc] at ht
      rcases List.mem_cons.mp hp with rfl | hp
      · exact .inr ⟨_, _, _, ht, rfl⟩
      · exact .inl hp
    | acquireFailed | acquired | removeAcquireFailed | removeAcquired =>
      change p ∈ (s.attempted _ _).published at hp
      rw [State.attempted_published] at hp
      exact .inl hp
    | _ => exact .inl hp

theorem Steps.stores {a : Action Unit} (h : Steps s a s') (hall : s.All Q) :
    (∀ key m, s'.redis.loadManifest key = some m → s.redis.loadManifest key = some m ∨
      ∃ job staged fetchedAt, Q (Job.spec job) ∧ m = job.manifest staged fetchedAt) ∧
    ∀ p ∈ s'.published, p ∈ s.published ∨
      ∃ job staged fetchedAt, Q (Job.spec job) ∧ p.manifest = job.manifest staged fetchedAt := by
  cases h with
  | run hi h => exact h.stores (hall.threads _ (List.mem_of_getElem? hi))
  | _ => exact ⟨fun _ _ => .inl, fun _ => .inl⟩

end Specs

/-! ## The proxy -/

/-- `cacheSpecFromDescriptor`. -/
def cacheSpecFromDescriptor (d : Descriptor) (ttl : ℤ) : Spec where
  key := d.cacheKey
  ttl := ttl
  descriptor := d
  hasFetch := true

/-- `newCacheSpec`, with the `CacheDurationHours` of every provider. -/
def newCacheSpec (hours : String → ℤ) (d : Descriptor) : Spec :=
  cacheSpecFromDescriptor d (hours d.providerID * hour)

/-- A Go process: its cache, what its registry has loaded, and its handlers. -/
structure Proxy where
  /-- the cache -/
  cache : State Unit
  /-- `CacheDurationHours` of every provider -/
  hours : String → ℤ
  /-- the calls that handlers are about to make, with the specs they have made -/
  prepared : List Call

section Proxy

variable (legacyCacheDescriptor : String → Option Descriptor)
  (isCacheable : Descriptor → Option Bool)

/-- The descriptor that is restored from an entry. -/
def entryDescriptor (key : String) (m : Manifest) : Option Descriptor :=
  if m.descriptor.providerID = "" ∨ m.descriptor.endpoint = "" then legacyCacheDescriptor key
  else some m.descriptor

/-- The body of the loop of `RehydratePersistedCache`: the call it makes for an entry, `none` if it
skips the entry. What `legacyCacheDescriptor` and `isCacheable` return does not matter here. -/
def rehydrateEntry (key : String) (m : Manifest) : Option Call := do
  let descriptor ← entryDescriptor legacyCacheDescriptor key m
  let cacheable ← isCacheable descriptor
  let ttl := m.info.ttlSeconds * second
  if cacheable = false ∨ ttl ≤ 0 then some (.remove key)
  else
    let spec := cacheSpecFromDescriptor descriptor ttl
    if (m.descriptor.providerID = "" ∨ m.descriptor.endpoint = "") ∨ key ≠ spec.key then
      some (.migrateLegacy key spec)
    else some (.register spec)

/-- Everything that can happen next. -/
inductive ProxyAction where
  /-- the registry loads a provider -/
  | load (providerID : String) (hours : ℤ)
  /-- `serveCached` makes its spec -/
  | request (d : Descriptor)
  /-- `runWarmAllCache` has read a provider and will call `Warm` -/
  | warm (d : Descriptor)
  /-- `RehydratePersistedCache` has read an entry -/
  | rehydrate (key : String)
  /-- a handler makes its call -/
  | call (c : Call) (deadline : Option ℕ)
  /-- the administrator refreshes an entry -/
  | refresh (key : String) (deadline : Option ℕ)
  /-- the cache goes on by itself, or the process is restarted -/
  | cache (a : Action Unit)

/-- **One step** of the process. -/
def stepProxy (s : Proxy) : ProxyAction → Option Proxy
  | .load providerID hours => some { s with hours := Function.update s.hours providerID hours }
  | .request d => some { s with prepared := .getOrFetch (newCacheSpec s.hours d) :: s.prepared }
  | .warm d =>
    if s.hours d.providerID ≤ 0 then none
    else some { s with prepared := .warm (newCacheSpec s.hours d) :: s.prepared }
  | .rehydrate key => do
    let m ← s.cache.redis.loadManifest key
    let c ← rehydrateEntry legacyCacheDescriptor isCacheable key m
    some { s with prepared := c :: s.prepared }
  | .call c deadline =>
    if c ∈ s.prepared then
      (step s.cache (.start () c deadline)).map fun cache =>
        { s with cache := cache, prepared := s.prepared.erase c }
    else none
  | .refresh key deadline =>
    (step s.cache (.start () (.purge key) deadline)).map fun cache => { s with cache := cache }
  | .cache (.start ..) => none
  | .cache (.restart p) =>
    -- the handlers end with the process
    (step s.cache (.restart p)).map fun cache => { s with cache := cache, prepared := [] }
  | .cache a => (step s.cache a).map fun cache => { s with cache := cache }

/-- A process with an empty server. -/
def Proxy.start (hours : String → ℤ) : Proxy := ⟨init, hours, []⟩

/-- What a step does. -/
inductive ProxySteps (s : Proxy) : ProxyAction → Proxy → Prop where
  /-- the registry loads a provider -/
  | load {providerID : String} {hours : ℤ} :
    ProxySteps s (.load providerID hours)
      { s with hours := Function.update s.hours providerID hours }
  /-- a handler makes the spec of a request or of a warm-up -/
  | make {a : ProxyAction} {c : Call} {d : Descriptor}
      (hc : c = .getOrFetch (newCacheSpec s.hours d) ∨ c = .warm (newCacheSpec s.hours d)) :
    ProxySteps s a { s with prepared := c :: s.prepared }
  /-- a handler restores the spec of an entry -/
  | restore {a : ProxyAction} {c : Call} {key : String} {m : Manifest}
      (hm : s.cache.redis.loadManifest key = some m)
      (hc : rehydrateEntry legacyCacheDescriptor isCacheable key m = some c) :
    ProxySteps s a { s with prepared := c :: s.prepared }
  /-- the cache takes a step, for a call that was prepared or has no spec if it is for a call -/
  | cache {a : ProxyAction} {b : Action Unit} {cache : State Unit} {prepared : List Call}
      (hb : step s.cache b = some cache)
      (hcall : ∀ p c deadline, b = .start p c deadline → c ∈ s.prepared ∨ ∃ key, c = .purge key)
      (hprepared : ∀ c ∈ prepared, c ∈ s.prepared) :
    ProxySteps s a ⟨cache, s.hours, prepared⟩

theorem ProxySteps.of_stepProxy {s s' : Proxy} {a : ProxyAction}
    (h : stepProxy legacyCacheDescriptor isCacheable s a = some s') :
    ProxySteps legacyCacheDescriptor isCacheable s a s' := by
  cases a with
  | load providerID hours =>
    obtain rfl := Option.some.inj h
    exact .load
  | request d =>
    obtain rfl := Option.some.inj h
    exact .make (.inl rfl)
  | warm d =>
    rw [stepProxy] at h
    split at h
    · cases h
    · obtain rfl := Option.some.inj h
      exact .make (.inr rfl)
  | rehydrate key =>
    obtain ⟨m, hm, h⟩ := Option.bind_eq_some_iff.mp h
    obtain ⟨c, hc, h⟩ := Option.bind_eq_some_iff.mp h
    obtain rfl := Option.some.inj h
    exact .restore hm hc
  | call c deadline =>
    rw [stepProxy] at h
    split at h
    · next hmem =>
      obtain ⟨cache, hcache, rfl⟩ := Option.map_eq_some_iff.mp h
      refine .cache hcache ?_ fun c' hc' => List.mem_of_mem_erase hc'
      rintro _ _ _ ⟨⟩
      exact .inl hmem
    · cases h
  | refresh key deadline =>
    rw [stepProxy] at h
    obtain ⟨cache, hcache, rfl⟩ := Option.map_eq_some_iff.mp h
    refine .cache hcache ?_ fun _ hc => hc
    rintro _ _ _ ⟨⟩
    exact .inr ⟨key, rfl⟩
  | cache b =>
    cases b with
    | start p c deadline => cases h
    | restart p =>
      rw [stepProxy] at h
      obtain ⟨cache, hcache, rfl⟩ := Option.map_eq_some_iff.mp h
      refine .cache hcache ?_ fun _ hc => absurd hc List.not_mem_nil
      rintro _ _ _ ⟨⟩
    | run | fire | release | cancel | tick =>
      rw [stepProxy] at h
      · obtain ⟨cache, hcache, rfl⟩ := Option.map_eq_some_iff.mp h
        refine .cache hcache ?_ fun _ hc => hc
        rintro _ _ _ ⟨⟩
      · rintro _ _ _ ⟨⟩
      · rintro _ ⟨⟩

/-! ### Lifetimes -/

/-- The spec of a call. -/
def Call.spec : Call → Option Spec
  | .getOrFetch spec => some spec
  | .register spec => some spec
  | .warm spec => some spec
  | .migrateLegacy _ spec => some spec
  | _ => none

/-- A spec of the provider has this lifetime. -/
def Spec.Lasts (providerID : String) (hours : ℤ) (spec : Spec) : Prop :=
  spec.descriptor.providerID = providerID → spec.ttl = hours * hour

/-- A call with a spec of the provider has this lifetime, unless it bypasses the cache. -/
def Call.Lasts (providerID : String) (hours : ℤ) (c : Call) : Prop :=
  ∀ spec, c.spec = some spec → 0 < spec.ttl → spec.Lasts providerID hours

/-- The process has not kept another lifetime of the provider: neither in a registered spec, a timer
or an operation in flight, nor in a call that is about to be made, nor in an entry that will be
restored. -/
structure Proxy.Agrees (s : Proxy) (providerID : String) (hours : ℤ) : Prop where
  /-- the cache -/
  cache : s.cache.All (Spec.Lasts providerID hours)
  /-- the handlers -/
  prepared : ∀ c ∈ s.prepared, c.Lasts providerID hours
  /-- the entries -/
  entries : ∀ key m c, s.cache.redis.loadManifest key = some m →
    rehydrateEntry legacyCacheDescriptor isCacheable key m = some c → c.Lasts providerID hours

/-- A new duration is loaded only where no other one has been kept. -/
def ProxyAction.Agrees (s : Proxy) : ProxyAction → Prop
  | .load providerID hours => s.Agrees legacyCacheDescriptor isCacheable providerID hours
  | _ => True

/-- A spec with the lifetime the registry says. -/
structure Spec.Honours (hours : String → ℤ) (spec : Spec) : Prop where
  /-- it names a provider -/
  providerID : spec.descriptor.providerID ≠ ""
  /-- and an endpoint -/
  endpoint : spec.descriptor.endpoint ≠ ""
  /-- it is cached -/
  pos : 0 < spec.ttl
  /-- as long as the registry says -/
  ttl : spec.ttl = hours spec.descriptor.providerID * hour

/-- A call with the lifetime the registry says, unless it bypasses the cache. -/
def Call.Honours (hours : String → ℤ) (c : Call) : Prop :=
  ∀ spec, c.spec = some spec →
    (0 < spec.ttl → spec.ttl = hours spec.descriptor.providerID * hour) ∧
      ∀ oldKey, c = .migrateLegacy oldKey spec → 0 < spec.ttl

/-- **The invariant**: every lifetime that is kept is the one the registry says. -/
structure Proxy.Honest (s : Proxy) : Prop where
  /-- the cache -/
  cache : s.cache.All (Spec.Honours s.hours)
  /-- the handlers -/
  prepared : ∀ c ∈ s.prepared, c.Honours s.hours
  /-- the entries -/
  entries : ∀ key m c, s.cache.redis.loadManifest key = some m →
    rehydrateEntry legacyCacheDescriptor isCacheable key m = some c → c.Honours s.hours

variable {legacyCacheDescriptor isCacheable} {s s' : Proxy} {hours : String → ℤ} {spec : Spec}
  {c : Call} {m : Manifest} {key providerID : String} {h : ℤ}

theorem normalized_ttl (spec : Spec) : spec.normalized.ttl = spec.ttl := by
  rw [Spec.normalized]
  split <;> rfl

theorem normalized_descriptor (spec : Spec) : spec.normalized.descriptor = spec.descriptor := by
  rw [Spec.normalized]
  split <;> rfl

theorem descriptor_of_valid (hvalid : validateSpec spec = none) :
    spec.descriptor.providerID ≠ "" ∧ spec.descriptor.endpoint ≠ "" := by
  rw [validateSpec] at hvalid
  split at hvalid
  · cases hvalid
  · split at hvalid
    · cases hvalid
    · next hdescriptor => exact not_or.mp hdescriptor

/-! ### A call -/

theorem Call.Honours.normalized (hc : c.Honours hours) (hspec : c.spec = some spec)
    (hvalid : validateSpec spec.normalized = none) (hpos : 0 < spec.normalized.ttl) :
    spec.normalized.Honours hours := by
  obtain ⟨hproviderID, hendpoint⟩ := descriptor_of_valid hvalid
  refine ⟨hproviderID, hendpoint, hpos, ?_⟩
  rw [normalized_ttl, normalized_descriptor]
  rw [normalized_ttl] at hpos
  exact (hc spec hspec).1 hpos

theorem all_registerEntry_of_valid {Q : Spec → Prop}
    (hspec : validateSpec spec = none → 0 < spec.ttl → Q spec) :
    (registerEntry spec (.returned .ok)).All Q := by
  rw [registerEntry]
  split
  · trivial
  · next hvalid =>
    split
    · trivial
    · next httl => exact ⟨hspec hvalid (Int.not_le.mp httl), trivial⟩

/-- A call hands its spec to the cache. -/
theorem Call.Honours.entry (hc : c.Honours hours) : c.entry.All (Spec.Honours hours) := by
  cases c with
  | getOrFetch spec =>
    rw [Call.entry]
    split
    · trivial
    · next httl =>
      split
      · trivial
      · next hvalid => exact hc.normalized rfl hvalid (Int.not_le.mp httl)
  | register spec => exact all_registerEntry_of_valid (hc.normalized rfl)
  | warm spec =>
    rw [Call.entry]
    split
    · trivial
    · next httl =>
      split
      · trivial
      · next hvalid => exact hc.normalized rfl hvalid (Int.not_le.mp httl)
  | purge key | remove key =>
    rw [Call.entry]
    split <;> trivial
  | migrateLegacy oldKey spec =>
    rw [Call.entry]
    split
    · exact all_registerEntry_of_valid (hc.normalized rfl)
    · split
      · trivial
      · next hvalid =>
        -- `MigrateLegacy` looks at the TTL only after it has read the old entry
        refine hc.normalized rfl hvalid ?_
        rw [normalized_ttl]
        exact (hc spec rfl).2 oldKey rfl

/-! ### An entry -/

/-- A publication writes the lifetime of its spec. -/
theorem Job.ttlSeconds_manifest {job : Job} (hspec : job.spec.Honours hours) (staged : Staged)
    (fetchedAt : ℕ) :
    (job.manifest staged fetchedAt).info.ttlSeconds =
      hours job.spec.descriptor.providerID * 3600 := by
  change job.spec.ttl.tdiv second = _
  rw [hspec.ttl, show (hour : ℤ) = 3600 * second from rfl, ← Int.mul_assoc,
    Int.mul_tdiv_cancel _ (by decide)]

/-- What is restored from an entry has the lifetime of the entry. -/
theorem rehydrateEntry_honours
    (hm : ∀ d, entryDescriptor legacyCacheDescriptor key m = some d →
      m.info.ttlSeconds * second = hours d.providerID * hour)
    (hc : rehydrateEntry legacyCacheDescriptor isCacheable key m = some c) : c.Honours hours := by
  obtain ⟨d, hd, hc⟩ := Option.bind_eq_some_iff.mp hc
  obtain ⟨cacheable, -, hc⟩ := Option.bind_eq_some_iff.mp hc
  dsimp only at hc
  split at hc
  · obtain rfl := Option.some.inj hc
    rintro spec ⟨⟩
  · next hcached =>
    have hpos : 0 < m.info.ttlSeconds * second := Int.not_le.mp (not_or.mp hcached).2
    split at hc
    · obtain rfl := Option.some.inj hc
      rintro spec ⟨⟩
      exact ⟨fun _ => hm d hd, fun _ _ => hpos⟩
    · obtain rfl := Option.some.inj hc
      rintro spec ⟨⟩
      refine ⟨fun _ => hm d hd, ?_⟩
      rintro oldKey ⟨⟩

theorem Job.rehydrateEntry_manifest {job : Job} (hspec : job.spec.Honours hours) {staged : Staged}
    {fetchedAt : ℕ} (hc : rehydrateEntry legacyCacheDescriptor isCacheable key
      (job.manifest staged fetchedAt) = some c) : c.Honours hours := by
  refine rehydrateEntry_honours (fun d hd => ?_) hc
  have hdescriptor : (job.manifest staged fetchedAt).descriptor = job.spec.descriptor := rfl
  rw [entryDescriptor, hdescriptor,
    if_neg (not_or.mpr ⟨hspec.providerID, hspec.endpoint⟩)] at hd
  obtain rfl := Option.some.inj hd
  rw [job.ttlSeconds_manifest hspec, Int.mul_assoc]
  rfl

/-! ### One step -/

theorem newCacheSpec_honours (hours : String → ℤ) (d : Descriptor) :
    (Call.getOrFetch (newCacheSpec hours d)).Honours hours ∧
      (Call.warm (newCacheSpec hours d)).Honours hours := by
  constructor
  all_goals
    rintro spec ⟨⟩
    refine ⟨fun _ => rfl, ?_⟩
    rintro oldKey ⟨⟩

theorem Spec.Honours.load (hspec : spec.Honours hours) (hlasts : spec.Lasts providerID h) :
    spec.Honours (Function.update hours providerID h) := by
  refine ⟨hspec.providerID, hspec.endpoint, hspec.pos, ?_⟩
  by_cases hid : spec.descriptor.providerID = providerID
  · rw [hid, Function.update_self]
    exact hlasts hid
  · rw [Function.update_of_ne hid]
    exact hspec.ttl

theorem Call.Honours.load (hc : c.Honours hours) (hlasts : c.Lasts providerID h) :
    c.Honours (Function.update hours providerID h) := by
  intro spec hspec
  refine ⟨fun hpos => ?_, (hc spec hspec).2⟩
  by_cases hid : spec.descriptor.providerID = providerID
  · rw [hid, Function.update_self]
    exact hlasts spec hspec hpos hid
  · rw [Function.update_of_ne hid]
    exact (hc spec hspec).1 hpos

theorem Proxy.Honest.prepare (hs : s.Honest legacyCacheDescriptor isCacheable)
    (hc : c.Honours s.hours) :
    Proxy.Honest legacyCacheDescriptor isCacheable { s with prepared := c :: s.prepared } := by
  refine ⟨hs.cache, fun c' hc' => ?_, hs.entries⟩
  rcases List.mem_cons.mp hc' with rfl | hc'
  · exact hc
  · exact hs.prepared c' hc'

theorem ProxySteps.honest {a : ProxyAction}
    (h : ProxySteps legacyCacheDescriptor isCacheable s a s')
    (ha : a.Agrees legacyCacheDescriptor isCacheable s)
    (hs : s.Honest legacyCacheDescriptor isCacheable) :
    s'.Honest legacyCacheDescriptor isCacheable := by
  cases h with
  | load =>
    -- the other providers keep their durations, and this one has kept no other
    exact ⟨hs.cache.and_imp ha.cache fun _ => .load,
      fun c hc => (hs.prepared c hc).load (ha.prepared c hc),
      fun key m c hm hc => (hs.entries key m c hm hc).load (ha.entries key m c hm hc)⟩
  | make hc =>
    rcases hc with rfl | rfl
    · exact hs.prepare (newCacheSpec_honours ..).1
    · exact hs.prepare (newCacheSpec_honours ..).2
  | restore hm hc => exact hs.prepare (hs.entries _ _ _ hm hc)
  | cache hb hcall hprepared =>
    have hsteps := Steps.of_step hb
    refine ⟨hsteps.all_specs hs.cache fun p c deadline hstart => ?_,
      fun c hc => hs.prepared c (hprepared c hc), fun key m c hm hc => ?_⟩
    · rcases hcall p c deadline hstart with hmem | ⟨key, rfl⟩
      · exact (hs.prepared c hmem).entry
      · refine Call.Honours.entry ?_
        rintro spec ⟨⟩
    · -- a new entry was written for a spec of the cache, and restoring gives back its lifetime
      rcases (hsteps.stores hs.cache).1 key m hm with hm | ⟨job, staged, fetchedAt, hspec, rfl⟩
      · exact hs.entries key m c hm hc
      · exact Job.rehydrateEntry_manifest hspec hc

/-- What a step publishes carries the lifetime the registry says. -/
theorem ProxySteps.published {a : ProxyAction}
    (h : ProxySteps legacyCacheDescriptor isCacheable s a s')
    (hs : s.Honest legacyCacheDescriptor isCacheable) {p : Publication}
    (hp : p ∈ s'.cache.published) : p ∈ s.cache.published ∨
      p.manifest.info.ttlSeconds = s.hours p.manifest.descriptor.providerID * 3600 := by
  cases h with
  | load | make | restore => exact .inl hp
  | cache hb =>
    rcases ((Steps.of_step hb).stores hs.cache).2 p hp with
      hp | ⟨job, staged, fetchedAt, hspec, hmanifest⟩
    · exact .inl hp
    · rw [hmanifest]
      exact .inr (job.ttlSeconds_manifest hspec staged fetchedAt)

theorem start_honest (hours : String → ℤ) :
    (Proxy.start hours).Honest legacyCacheDescriptor isCacheable where
  cache := by
    refine ⟨fun _ => ⟨?_, ?_⟩, fun _ h => absurd h List.not_mem_nil⟩
    · rintro key spec ⟨⟩
    · rintro key tm ⟨⟩
  prepared _ h := absurd h List.not_mem_nil
  entries := by
    rintro key m c ⟨⟩

/-! ### Every run -/

/-- **A configured lifetime is honoured**, in every run in which a new duration is loaded only where
no other one has been kept. Whatever is published carries the duration the registry says at that
moment, and the cache does not work for a provider without a duration: there is no registered spec,
no timer and no operation of it. -/
theorem lifetime_is_honoured (legacyCacheDescriptor : String → Option Descriptor)
    (isCacheable : Descriptor → Option Bool) {hours : String → ℤ} {s s' : Proxy} {a : ProxyAction}
    (hrun : Run (stepProxy legacyCacheDescriptor isCacheable)
      (fun s a => a.Agrees legacyCacheDescriptor isCacheable s) (Proxy.start hours) s)
    (hstep : stepProxy legacyCacheDescriptor isCacheable s a = some s') :
    (∀ p ∈ s'.cache.published, p ∈ s.cache.published ∨
      p.manifest.info.ttlSeconds = s.hours p.manifest.descriptor.providerID * 3600) ∧
    ∀ providerID, s.hours providerID ≤ 0 →
      s.cache.All fun spec => spec.descriptor.providerID ≠ providerID := by
  have hs : s.Honest legacyCacheDescriptor isCacheable :=
    hrun.invariant (fun _ _ _ hs ha hstep => (ProxySteps.of_stepProxy _ _ hstep).honest ha hs)
      (start_honest hours)
  constructor
  · exact fun p hp => (ProxySteps.of_stepProxy _ _ hstep).published hs hp
  · intro providerID hzero
    refine hs.cache.mono fun spec hspec hid => ?_
    have hpos := hspec.pos
    rw [hspec.ttl, hid] at hpos
    exact absurd hpos (Int.not_lt.mpr (Int.mul_nonpos_of_nonpos_of_nonneg hzero (by decide)))

theorem start_agrees (hours : String → ℤ) (providerID : String) (h : ℤ) :
    (Proxy.start hours).Agrees legacyCacheDescriptor isCacheable providerID h where
  cache := by
    refine ⟨fun _ => ⟨?_, ?_⟩, fun _ h => absurd h List.not_mem_nil⟩
    · rintro key spec ⟨⟩
    · rintro key tm ⟨⟩
  prepared _ h := absurd h List.not_mem_nil
  entries := by
    rintro key m c ⟨⟩

end Proxy

/-! ### Two runs -/

/-- A step with every entry cacheable and no legacy keys. -/
abbrev sampleStep : Proxy → ProxyAction → Option Proxy :=
  stepProxy (fun _ => none) (fun _ => some true)

/-- The guide of a provider. -/
def guide : Descriptor :=
  ⟨"p", "xmltv.php", "", [("Accept", "*/*"), ("User-Agent", "IPTV-Proxy/1.0")]⟩

/-- A request for the guide misses, and the refill is about to publish. -/
def fills (hours : ℤ) : List ProxyAction :=
  [.request guide, .call (.getOrFetch (cacheSpecFromDescriptor guide (hours * hour))) none,
    .cache (.run 0 .ok none), .cache (.run 0 .ok none), .cache (.run 1 .ok none),
    .cache (.run 1 .ok none), .cache (.run 1 .ok none), .cache (.run 1 .ok (some sampleResponse)),
    .cache (.run 1 .ok none), .cache (.run 1 .ok none)]

/-- A duration of two hours, loaded before the first request, is the one that is published. -/
theorem loaded_lifetime_is_honoured :
    ∃ s s' : Proxy,
      Run sampleStep (fun s a => a.Agrees (fun _ => none) (fun _ => some true) s)
        (Proxy.start fun _ => 1) s ∧
      sampleStep s (.cache (.run 1 .ok none)) = some s' ∧
      (s.hours "p", s'.cache.published.map fun p => p.manifest.info.ttlSeconds) = (2, [7200]) ∧
      (∀ p ∈ s'.cache.published, p ∈ s.cache.published ∨
        p.manifest.info.ttlSeconds = s.hours p.manifest.descriptor.providerID * 3600) ∧
      ∀ providerID, s.hours providerID ≤ 0 →
        s.cache.All fun spec => spec.descriptor.providerID ≠ providerID := by
  have hend : ((sampleStep (Proxy.start fun _ => 1) (.load "p" 2)).bind fun s =>
      (exec sampleStep s (fills 2)).bind fun s =>
        (sampleStep s (.cache (.run 1 .ok none))).map fun s' =>
          (s.hours "p", s'.cache.published.map fun p => p.manifest.info.ttlSeconds)) =
      some (2, [7200]) := by
    decide +kernel
  obtain ⟨s₁, hload, hend⟩ := Option.bind_eq_some_iff.mp hend
  obtain ⟨s, hfills, hend⟩ := Option.bind_eq_some_iff.mp hend
  obtain ⟨s', hstep, hobs⟩ := Option.map_eq_some_iff.mp hend
  have hagrees : ∀ a ∈ fills 2, ∀ s : Proxy,
      a.Agrees (fun _ => none) (fun _ => some true) s := by
    simp [fills, ProxyAction.Agrees]
  have hrun : Run sampleStep (fun s a => a.Agrees (fun _ => none) (fun _ => some true) s)
      (Proxy.start fun _ => 1) s :=
    Relation.ReflTransGen.trans (.single ⟨.load "p" 2, start_agrees .., hload⟩)
      (Run.of_exec hagrees hfills)
  exact ⟨s, s', hrun, hstep, hobs, lifetime_is_honoured _ _ hrun hstep⟩

/-- The duration of a provider is set to zero while an entry of it is cached for an hour, and an
hour passes. -/
def turnsOff : List ProxyAction :=
  fills 1 ++ [.cache (.run 1 .ok none), .cache (.run 1 .ok none), .cache (.run 1 .ok none),
    .load "p" 0, .cache (.tick hour), .cache (.fire () "iptv:cache:p:xmltv.php"),
    .cache (.run 2 .ok none), .cache (.run 2 .ok none), .cache (.run 2 .ok (some sampleResponse)),
    .cache (.run 2 .ok none), .cache (.run 2 .ok none)]

/-- The timer goes on: its refresh publishes for an hour although the registry says zero. -/
theorem lifetime_is_kept :
    ∃ s s' : Proxy, Run sampleStep (fun _ _ => True) (Proxy.start fun _ => 1) s ∧
      sampleStep s (.cache (.run 2 .ok none)) = some s' ∧ s.hours "p" = 0 ∧
      (∃ p ∈ s'.cache.published, p ∉ s.cache.published ∧ p.manifest.descriptor.providerID = "p" ∧
        p.manifest.info.ttlSeconds = 3600) ∧
      ¬s.cache.All fun spec => spec.descriptor.providerID ≠ "p" := by
  have hend : (exec sampleStep (Proxy.start fun _ => 1) turnsOff).map (fun s =>
      (s.hours "p", (s.cache.mgr ()).specs "iptv:cache:p:xmltv.php",
        s.cache.published.map fun p => p.manifest.generation)) =
      some (0, some (cacheSpecFromDescriptor guide hour), [some 2]) := by
    decide +kernel
  have hrefresh : ((exec sampleStep (Proxy.start fun _ => 1) turnsOff).bind fun s =>
      (sampleStep s (.cache (.run 2 .ok none))).map fun s' =>
        s'.cache.published.map fun p => (p.manifest.generation, p.manifest.descriptor.providerID,
          p.manifest.info.ttlSeconds)) =
      some [(some 4, "p", 3600), (some 2, "p", 3600)] := by
    decide +kernel
  obtain ⟨s, hs, hobs⟩ := Option.map_eq_some_iff.mp hend
  rw [hs, Option.bind_some] at hrefresh
  obtain ⟨s', hstep, hpublished⟩ := Option.map_eq_some_iff.mp hrefresh
  obtain ⟨hzero, hobs⟩ := Prod.mk.inj hobs
  obtain ⟨hspec, hold⟩ := Prod.mk.inj hobs
  obtain ⟨p, ps, hcons, hp, -⟩ := List.map_eq_cons_iff.mp hpublished
  obtain ⟨hgeneration, hp⟩ := Prod.mk.inj hp
  obtain ⟨hproviderID, httl⟩ := Prod.mk.inj hp
  refine ⟨s, s', Run.of_exec (fun _ _ _ => trivial) hs, hstep, hzero,
    ⟨p, ?_, fun hmem => ?_, hproviderID, httl⟩, fun hall => ?_⟩
  · rw [hcons]
    exact List.mem_cons_self
  · have hmem := List.mem_map_of_mem (f := fun p => p.manifest.generation) hmem
    rw [hold, List.mem_singleton, hgeneration] at hmem
    cases hmem
  · exact (hall.mgr ()).specs hspec rfl

end IptvProxy.Cache
