import IptvProxy.Cache.Leases

/-!
# Failed replacements

A replacement that returns an error leaves the entry as it was, wherever it has failed: until its
publish script is executed nothing it does concerns the manifest or a chunk the manifest names, and
an executed script whose reply arrives is followed by success
(`failed_replacement_keeps_entry`). A script that was executed although its reply got lost is the
exception: the clean-up of the error path then deletes the chunks of what has just been published
(`lost_reply_empties_entry`).
-/

namespace IptvProxy.Cache

open Agents Transition

variable {s s' : State Unit} {i : ℕ} {t : Thread Unit} {o : Outcome} {key : String}

/-- The manifest of the key names a generation with chunks. -/
def State.Pins (s : State Unit) (key : String) : Prop :=
  ∃ m g, s.redis.loadManifest key = some m ∧ m.pinned = some g

/-- The manifest of the key names a generation with chunks, and they all exist. -/
def State.Servable (s : State Unit) (key : String) : Prop :=
  ∃ m g, s.redis.loadManifest key = some m ∧ m.pinned = some g ∧
    ∀ j < m.chunkCount, s.redis.chunks.has s.now ⟨key, g, j⟩ = true

/-- No `Remove` deletes the manifest of the key. -/
def Action.keeps (key : String) (s : State Unit) : Action Unit → Prop
  | .run i _ _ => ∀ t, s.threads[i]? = some t → ∀ opID m, t.pc ≠ .removeDel key opID m
  | _ => True

/-- Besides thread `i` nobody publishes an empty body for the key. Such a body has no chunks, and
the entry is never served. -/
def Action.fills (i : ℕ) (key : String) (s : State Unit) : Action Unit → Prop
  | .run k _ _ => ∀ t, s.threads[k]? = some t → ∀ job staged fetchedAt,
      t.pc = .swap job staged fetchedAt → job.spec.key = key → k ≠ i → staged.response.body ≠ []
  | _ => True

/-- Besides thread `i` nobody takes the entry away. -/
abbrev Action.spares (i : ℕ) (key : String) (s : State Unit) (a : Action Unit) : Prop :=
  a.keeps key s ∧ a.fills i key s

/-- Whatever the operation does from here, it does not return an error. -/
def Pc.errorless : Pc → Prop
  | .releaseReader _ _ next => next.errorless
  | .cleanup _ _ _ _ _ next => next.errorless
  | .expire _ _ _ _ _ next => next.errorless
  | .schedule _ _ next => next.errorless
  | .unlock _ _ next => next.errorless
  | .returned r => ∀ e, r ≠ .error e
  | .crashed => True
  | _ => False

/-! ## After the swap -/

section Errorless

theorem Pc.errorless_cleanupGeneration {g n : ℕ} {background : Bool} {next : Pc}
    (h : next.errorless) : (Pc.cleanupGeneration key g n background next).errorless := by
  unfold Pc.cleanupGeneration
  split <;> exact h

theorem Pc.errorless_expireGenerationFallback {g n : ℕ} {background : Bool} {next : Pc}
    (h : next.errorless) : (Pc.expireGenerationFallback key g n background next).errorless := by
  unfold Pc.expireGenerationFallback
  split <;> exact h

theorem Job.errorless_published {job : Job} (h : job.operation.plain) :
    job.published.errorless := by
  rw [Job.published_of_plain h]
  rintro e ⟨⟩

theorem Ran.errorless (h : Ran s i t o s') (hi : s.threads[i]? = some t)
    (ht : t.pc.errorless) : ∃ t', s'.threads[i]? = some t' ∧ t'.pc.errorless := by
  have hset : ∀ {u : Thread Unit}, s'.threads = s.threads.set i u → u.pc.errorless →
      ∃ t', s'.threads[i]? = some t' ∧ t'.pc.errorless := by
    intro u hu hpc
    exact ⟨u, getElem?_of_eq_set hu hi, hpc⟩
  cases h with
  | move hpc hm =>
    rw [hpc] at ht
    cases hm with
    | cleanupFailed | expireFailed =>
      refine hset rfl ?_
      dsimp only
      split <;> exact ht
    | unlockFailed => exact hset rfl ht
    | _ => exact ht.elim
  | unpin hpc _ =>
    rw [hpc] at ht
    refine hset rfl ?_
    dsimp only
    split
    · exact ht
    · exact Pc.errorless_cleanupGeneration ht
  | cleanup hpc _ | expire hpc _ =>
    rw [hpc] at ht
    refine hset rfl ?_
    dsimp only
    split <;> exact ht
  | schedule hpc _ | unlock hpc _ =>
    rw [hpc] at ht
    exact hset rfl ht
  | pin hpc _ _ _ | registerHit hpc _ | registerMiss hpc _ | refill hpc | register hpc _
  | warm hpc _ | purge hpc _ | acquireFailed hpc _ | acquired hpc _ _ | stage hpc _
  | writeChunk hpc _ | swapLost hpc _ _ _ | swapFirst hpc _ _ _ _ | swapWaits hpc _ _ _ _ _
  | swapClears hpc _ _ _ _ _ | removeAcquireFailed hpc _ | removeAcquired hpc _ _
  | removeLoad hpc _ | removeDelFailed hpc _ _ | removeDelLost hpc _ _ | removeEmpty hpc _ _ _
  | removeWaits hpc _ _ _ _ | removeClears hpc _ _ _ _ | migratePublish hpc _
  | migrateRegister hpc _ | duplicateForget hpc _ | duplicateDel hpc =>
    rw [hpc] at ht
    exact ht.elim

theorem Steps.errorless {a : Action Unit} (h : Steps s a s') (hi : s.threads[i]? = some t)
    (ht : t.pc.errorless) : ∃ t', s'.threads[i]? = some t' ∧ t'.pc.errorless := by
  cases h with
  | start | fire => exact ⟨t, getElem?_append_of_some hi, ht⟩
  | @run k _ _ u _ hk h =>
    by_cases hki : k = i
    · subst hki
      rw [hk] at hi
      obtain rfl := Option.some.inj hi
      exact h.errorless hk ht
    · exact ⟨t, h.other (Ne.symm hki) hi, ht⟩
  | @release k u r hit key g hk hpc hl =>
    by_cases hki : k = i
    · subst hki
      rw [hk] at hi
      obtain rfl := Option.some.inj hi
      refine ⟨_, getElem?_set_of_some hk, ?_⟩
      rintro e ⟨⟩
    · exact ⟨t, by rw [State.goto, State.setThread, List.getElem?_set_ne hki]; exact hi, ht⟩
  | releaseAgain | tick => exact ⟨t, hi, ht⟩
  | @cancel k u hk hc =>
    by_cases hki : k = i
    · subst hki
      rw [hk] at hi
      obtain rfl := Option.some.inj hi
      exact ⟨_, getElem?_set_of_some hk, ht⟩
    · exact ⟨t, by rw [State.setThread, List.getElem?_set_ne hki]; exact hi, ht⟩
  | restart =>
    refine ⟨_, by rw [stepRestart, List.getElem?_map, hi]; rfl, ?_⟩
    trivial

end Errorless

/-! ## The entry -/

theorem Manifest.pinned_isSome {m : Manifest} {g : ℕ} (hg : m.generation = some g)
    (hpos : 0 < m.chunkCount) : m.pinned = some g := by
  rw [Manifest.pinned, if_pos hpos, hg]

theorem State.Pins.of_hash (h : s.Pins key) (heq : s'.redis.hash key = s.redis.hash key) :
    s'.Pins key := by
  obtain ⟨m, g, hm, hg⟩ := h
  exact ⟨m, g, by rw [Redis.loadManifest, heq]; exact hm, hg⟩

theorem State.Pins.of_swap {job : Job} {staged : Staged} {fetchedAt : ℕ}
    (heq : s'.redis.hash job.spec.key = some ⟨job.manifest staged fetchedAt, none⟩)
    (hbody : staged.response.body ≠ []) : s'.Pins job.spec.key := by
  refine ⟨job.manifest staged fetchedAt, staged.generation, ?_, ?_⟩
  · rw [Redis.loadManifest, heq]
    rfl
  · exact Manifest.pinned_isSome rfl (chunkCount_pos hbody)

/-- The entry changes only when it is removed or replaced. -/
theorem Ran.entry (h : Ran s i t o s') (hp : t.pc.plain)
    (hno : ∀ opID m, t.pc ≠ .removeDel key opID m) :
    s'.redis.hash key = s.redis.hash key ∨
      ∃ job staged fetchedAt, t.pc = .swap job staged fetchedAt ∧ job.spec.key = key ∧
        s'.redis.hash key = some ⟨job.manifest staged fetchedAt, none⟩ ∧
        t.ctxDone s.now = false := by
  rcases h.hash with hhash | ⟨job, staged, fetchedAt, hpc, ho, -, hhash⟩ | ⟨k, hpc, hhash⟩
  · exact .inl (by rw [hhash])
  · by_cases hk : job.spec.key = key
    · refine .inr ⟨job, staged, fetchedAt, hpc, hk, ?_, ctxDone_of_applied ho⟩
      rw [hhash, ← hk, Function.update_self]
    · exact .inl (by rw [hhash, Function.update_of_ne (Ne.symm hk)])
  · rcases hpc with ⟨opID, m, hpc⟩ | hpc
    · have hk : key ≠ k := by
        rintro rfl
        exact hno opID m hpc
      exact .inl (by rw [hhash, Function.update_of_ne hk])
    · rw [hpc] at hp
      exact hp.elim

/-- An executed script whose reply arrives is followed by success. -/
theorem Ran.errorless_of_swap (h : Ran s i t o s') (hi : s.threads[i]? = some t)
    (hp : t.pc.plain) (ho : o ≠ .lost) {job : Job} {staged : Staged} {fetchedAt : ℕ}
    (hpc : t.pc = .swap job staged fetchedAt) (hchanged : s'.redis.hash key ≠ s.redis.hash key) :
    ∃ t', s'.threads[i]? = some t' ∧ t'.pc.errorless := by
  have hunder : t.under s.now o ≠ .lost := under_ne_lost ho s.now
  have hpub : job.published.errorless := by
    rw [hpc] at hp
    exact Job.errorless_published hp
  have hset : ∀ {u : Thread Unit}, s'.threads = s.threads.set i u → u.pc.errorless →
      ∃ t', s'.threads[i]? = some t' ∧ t'.pc.errorless :=
    fun hu hpc => ⟨_, getElem?_of_eq_set hu hi, hpc⟩
  cases h with
  -- the other sections do not touch an entry
  | move => exact absurd rfl hchanged
  | swapLost _ _ hlost _ => exact absurd hlost hunder
  | swapFirst hpc' _ _ _ _ =>
    obtain rfl := (Pc.swap.inj (hpc.symm.trans hpc')).1
    exact hset rfl hpub
  | swapWaits hpc' _ _ _ _ _ =>
    obtain rfl := (Pc.swap.inj (hpc.symm.trans hpc')).1
    exact hset rfl (Pc.errorless_expireGenerationFallback hpub)
  | swapClears hpc' _ _ _ _ _ =>
    obtain rfl := (Pc.swap.inj (hpc.symm.trans hpc')).1
    exact hset rfl (Pc.errorless_cleanupGeneration hpub)
  | pin hpc' _ _ _ | unpin hpc' _ | cleanup hpc' _ | expire hpc' _ | registerHit hpc' _
  | registerMiss hpc' _ | schedule hpc' _ | refill hpc' | register hpc' _ | warm hpc' _
  | purge hpc' _ | acquireFailed hpc' _ | acquired hpc' _ _ | stage hpc' _ | writeChunk hpc' _
  | unlock hpc' _ | removeAcquireFailed hpc' _ | removeAcquired hpc' _ _ | removeLoad hpc' _
  | removeDelFailed hpc' _ _ | removeDelLost hpc' _ _ | removeEmpty hpc' _ _ _
  | removeWaits hpc' _ _ _ _ | removeClears hpc' _ _ _ _ | migratePublish hpc' _
  | migrateRegister hpc' _ | duplicateForget hpc' _ | duplicateDel hpc' =>
    rw [hpc] at hpc'
    cases hpc'

/-- Either the entry can be served or thread `i` has replaced it. -/
theorem Steps.keeps {a : Action Unit} (h : Steps s a s') (ha : a.atomic) (hs : Sound s)
    (hspares : a.spares i key s)
    (hk : s.Pins key ∨ ∃ t, s.threads[i]? = some t ∧ t.pc.errorless) :
    s'.Pins key ∨ ∃ t, s'.threads[i]? = some t ∧ t.pc.errorless := by
  rcases hk with hpins | ⟨t, hi, ht⟩
  swap
  · exact .inr (h.errorless hi ht)
  cases h with
  | @run k o fetched u _ hk h =>
    have hp : u.pc.plain := (hs.shape u (List.mem_of_getElem? hk)).plain
    rcases h.entry hp (hspares.1 u hk) with heq | ⟨job, staged, fetchedAt, hpc, hkey, heq, -⟩
    · exact .inl (hpins.of_hash heq)
    · by_cases hchanged : s'.redis.hash key = s.redis.hash key
      · exact .inl (hpins.of_hash hchanged)
      · by_cases hki : k = i
        · subst hki
          exact .inr (h.errorless_of_swap hk hp (ha.2 _ _ _ rfl) hpc hchanged)
        · refine .inl ?_
          have hbody := hspares.2 u hk job staged fetchedAt hpc hkey hki
          subst hkey
          exact .of_swap heq hbody
  | _ => exact .inl (hpins.of_hash rfl)

/-- A manifest with chunks can be served. -/
theorem Sound.servable (hs : Sound s) (h : s.Pins key) : s.Servable key := by
  obtain ⟨m, g, hm, hg⟩ := h
  refine ⟨m, g, hm, hg, fun j hj => ?_⟩
  have hgen : m.generation = some g := by
    rwa [Manifest.pinned, if_pos (Nat.zero_lt_of_lt hj)] at hg
  obtain ⟨p, -, -, -, hchunks⟩ := hs.publication hm hgen
  obtain ⟨e, he, hd⟩ := hchunks j hj
  rw [ExpiringMap.has, ExpiringMap.lookup_of_deadline_none s.now he hd]
  rfl

/-! ## The next request -/

section Hit

/-- Thread `i` is a request that nobody cancels, `mu` is free, and neither the clock nor the server
has moved since `s₀`. -/
structure Reading (s₀ s : State Unit) (i : ℕ) (t : Thread Unit) : Prop where
  /-- the request -/
  thread : s.threads[i]? = some t
  /-- its context -/
  alive : t.cancelled = false ∧ t.deadline = none
  /-- no `Remove` holds the mutex -/
  mu : (s.mgr ()).mu = none
  /-- the clock -/
  now : s.now = s₀.now
  /-- the server -/
  redis : s.redis = s₀.redis

namespace Reading

variable {s₀ : State Unit} {spec : Spec} {caller : GetCaller} {m : Manifest} {g j : ℕ}
  {buffer : Body} {found : Manifest × Response}

theorem under (h : Reading s₀ s i t) : t.under s.now o = o := by
  rw [Thread.under, Thread.ctxDone, h.alive.1, h.alive.2]
  rfl

theorem locked (h : Reading s₀ s i t) (next : State Unit) : s.locked t.pid next = some next := by
  rw [State.locked, if_pos h.mu]

theorem goto (h : Reading s₀ s i t) (pc : Pc) :
    Reading s₀ (s.goto i t pc) i { t with pc := pc } where
  thread := getElem?_set_of_some h.thread
  alive := h.alive
  mu := h.mu
  now := h.now
  redis := h.redis

theorem setMgr (h : Reading s₀ s i t) (mgr : Manager) (hmu : mgr.mu = none) :
    Reading s₀ (s.setMgr t.pid mgr) i t where
  thread := h.thread
  alive := h.alive
  mu := by
    rw [State.setMgr_mgr]
    exact hmu
  now := h.now
  redis := h.redis

theorem setLease (h : Reading s₀ s i t) (lease : Option LeaseKey) :
    Reading s₀ (s.setThread i { t with lease := lease }) i { t with lease := lease } where
  thread := getElem?_set_of_some h.thread
  alive := h.alive
  mu := h.mu
  now := h.now
  redis := h.redis

/-- A request for a valid spec begins with `get`. -/
theorem start (hmu : (s.mgr ()).mu = none) {spec : Spec} (hkey : spec.normalized.key = key)
    (httl : 0 < spec.normalized.ttl) (hvalid : validateSpec spec.normalized = none) :
    ∃ t, step s (.start () (.getOrFetch spec) none) = some (s.spawn t) ∧
      Reading s (s.spawn t) s.threads.length t ∧ t.call = some (.getOrFetch spec) ∧
      t.pc = .get key (.getOrFetch spec.normalized) := by
  refine ⟨_, rfl, ⟨List.getElem?_concat_length, ⟨rfl, rfl⟩, hmu, rfl, rfl⟩, rfl, ?_⟩
  dsimp only
  rw [Call.entry, if_neg (Int.not_le.mpr httl), hvalid, hkey]

/-- The next section, with the reply of the command it issues. -/
theorem run (h : Reading s₀ s i t) (hstep : stepThread s i t .ok none = some s') :
    Run step (fun _ a => a = .run i .ok none) s s' := by
  refine .single ⟨.run i .ok none, rfl, ?_⟩
  rw [step, h.thread]
  exact hstep

/-- `get` pins the generation of the manifest. -/
theorem get (h : Reading s₀ s i t) (hpc : t.pc = .get key caller)
    (hm : s₀.redis.loadManifest key = some m) (hg : m.pinned = some g) :
    ∃ s' u, Run step (fun _ a => a = .run i .ok none) s s' ∧ Reading s₀ s' i u ∧ u.call = t.call ∧
      u.pc = .getChunk key m g [] 0 caller := by
  have hnext := ((h.setMgr ((s.mgr t.pid).pin (key, g)) h.mu).setLease
    (some (key, g))).goto (.getChunk key m g [] 0 caller)
  rw [State.goto, State.setThread, State.setThread, List.set_set] at hnext
  refine ⟨_, _, h.run ?_, hnext, rfl, rfl⟩
  rw [stepThread, hpc]
  dsimp only
  rw [stepGet, h.locked, h.under, if_neg (by decide), h.redis, hm]
  dsimp only
  rw [hg]
  rfl

/-- `readGeneration` reads a chunk. -/
theorem getChunk (h : Reading s₀ s i t) (hpc : t.pc = .getChunk key m g buffer j caller)
    (hbuffer : buffer = s₀.redis.storedBody key g j)
    (hchunk : s₀.redis.chunks.has s₀.now ⟨key, g, j⟩ = true) :
    ∃ s' u, Run step (fun _ a => a = .run i .ok none) s s' ∧ Reading s₀ s' i u ∧ u.call = t.call ∧
      u.pc = if j + 1 < m.chunkCount then
        .getChunk key m g (s₀.redis.storedBody key g (j + 1)) (j + 1) caller
      else caller.found key m (m.response (s₀.redis.storedBody key g (j + 1))) := by
  obtain ⟨c, hc⟩ := Option.isSome_iff_exists.mp hchunk
  have hnext : s₀.redis.storedBody key g (j + 1) = buffer ++ c.value := by
    rw [hbuffer, Redis.storedBody, (ExpiringMap.lookup_eq_some.mp hc).1]
    rfl
  rw [hnext]
  refine ⟨_, _, h.run ?_, h.goto (if j + 1 < m.chunkCount then
    .getChunk key m g (buffer ++ c.value) (j + 1) caller
    else caller.found key m (m.response (buffer ++ c.value))), rfl, rfl⟩
  rw [stepThread, hpc]
  dsimp only
  rw [stepGetChunk, h.under, if_neg (by decide), h.redis, h.now, hc]
  dsimp only
  split
  · rfl
  · rfl

/-- `readGeneration` reads the chunks that are left. -/
theorem getChunks (n : ℕ) (h : Reading s₀ s i t) (hpc : t.pc = .getChunk key m g buffer j caller)
    (hn : j + (n + 1) = m.chunkCount) (hbuffer : buffer = s₀.redis.storedBody key g j)
    (hchunks : ∀ j < m.chunkCount, s₀.redis.chunks.has s₀.now ⟨key, g, j⟩ = true) :
    ∃ s' u, Run step (fun _ a => a = .run i .ok none) s s' ∧ Reading s₀ s' i u ∧ u.call = t.call ∧
      u.pc = caller.found key m (m.response (s₀.redis.storedBody key g m.chunkCount)) := by
  induction n generalizing s t buffer j with
  | zero =>
    obtain ⟨s', u, hrun, hread, hcall, hpc'⟩ := h.getChunk hpc hbuffer (hchunks j (by omega))
    rw [if_neg (by omega), show j + 1 = m.chunkCount from hn] at hpc'
    exact ⟨s', u, hrun, hread, hcall, hpc'⟩
  | succ n ih =>
    obtain ⟨s', u, hrun, hread, hcall, hpc'⟩ := h.getChunk hpc hbuffer (hchunks j (by omega))
    rw [if_pos (by omega)] at hpc'
    obtain ⟨s'', u', hrun', hread', hcall', hpc''⟩ := ih hread hpc' (by omega) rfl
    exact ⟨s'', u', hrun.trans hrun', hread', hcall'.trans hcall, hpc''⟩

/-- What follows a hit: the spec is registered and its timer armed. -/
theorem hit (h : Reading s₀ s i t) (hpc : t.pc = .getRegister spec (some found)) :
    ∃ s' u, Run step (fun _ a => a = .run i .ok none) s s' ∧ s'.threads[i]? = some u ∧ u.call = t.call ∧
      u.pc = .returned (.response found.2 true) := by
  obtain ⟨manifest, r⟩ := found
  obtain ⟨active, mgr, hactive⟩ : ∃ active mgr,
      (s.mgr t.pid).registerIfAbsent spec = (active, mgr) := ⟨_, _, rfl⟩
  have hmu : mgr.mu = none := by
    have hsnd : ((s.mgr t.pid).registerIfAbsent spec).2 = mgr := congrArg Prod.snd hactive
    rw [← hsnd, Manager.registerIfAbsent]
    split <;> exact h.mu
  have hclock := (h.setMgr mgr hmu).goto
    (.scheduleFromMeta active manifest.info (.returned (.response r true)))
  have hschedule := hclock.goto (.schedule active (delayFromMeta active.ttl manifest.info s.now)
    (.returned (.response r true)))
  refine ⟨_, _, ((h.run ?_).trans (hclock.run rfl)).trans (hschedule.run (hschedule.locked _)),
    getElem?_set_of_some hschedule.thread, rfl, rfl⟩
  rw [stepThread, hpc]
  dsimp only
  rw [stepGetRegister, h.locked, hactive]

end Reading

end Hit

/-- **The next request is a hit**, with what the manifest and its chunks say. -/
theorem response_of_servable {m : Manifest} {g : ℕ} (hm : s.redis.loadManifest key = some m)
    (hg : m.pinned = some g)
    (hchunks : ∀ j < m.chunkCount, s.redis.chunks.has s.now ⟨key, g, j⟩ = true)
    (hmu : (s.mgr ()).mu = none) {spec : Spec} (hkey : spec.normalized.key = key)
    (httl : 0 < spec.normalized.ttl) (hvalid : validateSpec spec.normalized = none) :
    ∃ s₁ s' t, step s (.start () (.getOrFetch spec) none) = some s₁ ∧
      Run step (fun _ a => a = .run s.threads.length .ok none) s₁ s' ∧
      s'.threads[s.threads.length]? = some t ∧ t.call = some (.getOrFetch spec) ∧
      t.pc = .returned (.response (m.response (s.redis.storedBody key g m.chunkCount)) true) := by
  have hpos : 0 < m.chunkCount := by
    by_contra hzero
    rw [Manifest.pinned, if_neg hzero] at hg
    cases hg
  obtain ⟨t, hstep, hstart, hcall, hentry⟩ := Reading.start hmu hkey httl hvalid
  obtain ⟨s₁, t₁, hrun₁, h₁, hcall₁, hpc₁⟩ := hstart.get hentry hm hg
  obtain ⟨s₂, t₂, hrun₂, h₂, hcall₂, hpc₂⟩ :=
    h₁.getChunks (m.chunkCount - 1) hpc₁ (by omega) rfl hchunks
  obtain ⟨s₃, t₃, hrun₃, h₃, hcall₃, hpc₃⟩ := h₂.hit hpc₂
  exact ⟨s.spawn t, s₃, t₃, hstep, (hrun₁.trans hrun₂).trans hrun₃, h₃,
    hcall₃.trans (hcall₂.trans (hcall₁.trans hcall)), hpc₃⟩

theorem hit_of_servable (h : s.Servable key) (hmu : (s.mgr ()).mu = none) {spec : Spec}
    (hkey : spec.normalized.key = key) (httl : 0 < spec.normalized.ttl)
    (hvalid : validateSpec spec.normalized = none) :
    ∃ s' t r, Run step (fun _ a => a.atomic) s s' ∧ s'.threads[s.threads.length]? = some t ∧
      t.call = some (.getOrFetch spec) ∧ t.pc = .returned (.response r true) := by
  obtain ⟨m, g, hm, hg, hchunks⟩ := h
  obtain ⟨s₁, s', t, hstart, hrun, ht, hcall, hpc⟩ :=
    response_of_servable hm hg hchunks hmu hkey httl hvalid
  have hfirst : Run step (fun _ a => a.atomic) s s₁ :=
    .single ⟨.start () (.getOrFetch spec) none, ⟨trivial, by rintro _ _ _ ⟨⟩⟩, hstart⟩
  have hrest : Run step (fun _ a => a.atomic) s₁ s' := by
    refine hrun.mono ?_
    rintro _ _ rfl
    refine ⟨trivial, ?_⟩
    rintro _ _ _ ⟨⟩
    decide
  exact ⟨s', t, _, hfirst.trans hrest, ht, hcall, hpc⟩

/-! ## The result -/

/-- **A failed replacement leaves the entry as it was.** In every state of a run, from a state in
which the key can be served, in which no command has an effect although its reply is lost and
nobody else takes the entry away: when thread `i` has returned an error, all chunks the manifest
names exist, and the next request is a hit. -/
theorem failed_replacement_keeps_entry {e : Error}
    (hreach : Run step (fun _ a => a.atomic) init s) (hserv : s.Servable key)
    (h : Run step (fun s a => a.atomic ∧ a.spares i key s) s s')
    (hi : s'.threads[i]? = some t) (herr : t.pc = .returned (.error e)) :
    s'.Servable key ∧ ((s'.mgr ()).mu = none → ∀ spec : Spec, spec.normalized.key = key →
      0 < spec.normalized.ttl → validateSpec spec.normalized = none →
      ∃ s'' u r, Run step (fun _ a => a.atomic) s' s'' ∧
        s''.threads[s'.threads.length]? = some u ∧ u.call = some (.getOrFetch spec) ∧
        u.pc = .returned (.response r true)) := by
  have hpins : s.Pins key := by
    obtain ⟨m, g, hm, hg, -⟩ := hserv
    exact ⟨m, g, hm, hg⟩
  have hboth : Sound s' ∧ (s'.Pins key ∨ ∃ t, s'.threads[i]? = some t ∧ t.pc.errorless) := by
    refine h.invariant
      (I := fun s => Sound s ∧ (s.Pins key ∨ ∃ t, s.threads[i]? = some t ∧ t.pc.errorless)) ?_
      ⟨sound_of_run hreach, .inl hpins⟩
    rintro s a s' ⟨hs, hk⟩ ⟨ha, hspares⟩ hstep
    have hsteps := Steps.of_step hstep
    exact ⟨hsteps.sound ha hs, hsteps.keeps ha hs hspares hk⟩
  obtain ⟨hs, hk⟩ := hboth
  have hservable : s'.Servable key := by
    rcases hk with hpins | ⟨u, hu, herrorless⟩
    · exact hs.servable hpins
    · rw [hi] at hu
      obtain rfl := Option.some.inj hu
      rw [herr] at herrorless
      exact absurd rfl (herrorless e)
  exact ⟨hservable, fun hmu spec hkey httl hvalid =>
    hit_of_servable hservable hmu hkey httl hvalid⟩

/-- `Warm` publishes. -/
def warmed : List (Action Unit) :=
  [.start () (.warm sampleSpec) none, .run 0 .ok none, .run 0 .ok none, .run 0 .ok none,
    .run 0 .ok (some sampleResponse), .run 0 .ok none, .run 0 .ok none, .run 0 .ok none,
    .run 0 .ok none, .run 0 .ok none]

/-- A second `Warm` gets an error from the provider. -/
def fetchFails : List (Action Unit) :=
  [.start () (.warm sampleSpec) none, .run 1 .ok none, .run 1 .ok none, .run 1 .ok none,
    .run 1 .ok none, .run 1 .ok none]

/-- A section that changes an entry. -/
def Pc.changesEntry : Pc → Bool
  | .swap _ _ _ => true
  | .removeDel _ _ _ => true
  | _ => false

/-- The action is one of that run, and no entry is about to change. -/
def failingStep (s : State Unit) (a : Action Unit) : Bool :=
  fetchFails.contains a && s.threads.all fun t => !t.pc.changesEntry

theorem spares_of_failingStep {a : Action Unit} (h : failingStep s a = true) :
    a.atomic ∧ a.spares i key s := by
  have hactions : ∀ a ∈ fetchFails, a.atomic := by
    simp [fetchFails, Action.atomic, Action.plain, Call.plain]
  obtain ⟨hmem, htest⟩ := Bool.and_eq_true_iff.mp h
  refine ⟨hactions a (List.contains_iff_mem.mp hmem), ?_⟩
  cases a with
  | run k o fetched =>
    have hpc : ∀ t, s.threads[k]? = some t → t.pc.changesEntry = false := fun t hk =>
      Bool.not_eq_true' _ ▸ List.all_eq_true.mp htest t (List.mem_of_getElem? hk)
    constructor
    · intro t hk opID m h
      have hfalse := hpc t hk
      rw [h] at hfalse
      cases hfalse
    · intro t hk job staged fetchedAt h
      have hfalse := hpc t hk
      rw [h] at hfalse
      cases hfalse
  | _ => exact ⟨trivial, trivial⟩

/-- The entry outlives the provider's error. -/
theorem failed_replacement_keeps_entry_sample :
    ∃ s s' : State Unit, ∃ t, Run step (fun _ a => a.atomic) init s ∧
      Run step (fun s a => a.atomic ∧ a.spares 1 sampleSpec.key s) s s' ∧
      s'.threads[1]? = some t ∧ t.pc = .returned (.error .fetch) ∧
      s'.Servable sampleSpec.key := by
  have hwarm : (exec step (init : State Unit) warmed).map (fun s =>
      ((s.redis.loadManifest "iptv:cache:p:e").map fun m => (m.pinned, m.chunkCount),
        (exec (fun s a => if failingStep s a then step s a else none) s fetchFails).map
          fun s => s.threads[1]?.map Thread.pc)) =
      some (some (some 2, 1), some (some (.returned (.error .fetch)))) := by
    decide +kernel
  have hatomic : ∀ a ∈ warmed, ∀ _ : State Unit, a.atomic := by
    simp [warmed, Action.atomic, Action.plain, Call.plain]
  obtain ⟨s, hrun, hobs⟩ := Run.of_eval hatomic hwarm
  obtain ⟨hmanifest, hfails⟩ := Prod.mk.inj hobs
  obtain ⟨m, hm, hpinned⟩ := Option.map_eq_some_iff.mp hmanifest
  have hserv : s.Servable sampleSpec.key :=
    (sound_of_run hrun).servable ⟨m, 2, hm, congrArg Prod.fst hpinned⟩
  have hok : ∀ (s : State Unit) (a : Action Unit), failingStep s a = true →
      a.atomic ∧ a.spares 1 sampleSpec.key s := fun _ _ => spares_of_failingStep
  obtain ⟨s', hrun', hthread⟩ := Run.of_tested hok hfails
  obtain ⟨t, ht, hpc⟩ := Option.map_eq_some_iff.mp hthread
  exact ⟨s, s', t, hrun, hrun', ht, hpc,
    (failed_replacement_keeps_entry hrun hserv hrun' ht hpc).1⟩

/-! ## A lost reply -/

/-- The second `Warm` of `warmedAgain`. -/
def secondJob : Job :=
  ⟨sampleSpec, .warm, 3, some (Job.manifest ⟨sampleSpec, .warm, 1, none⟩ ⟨2, sampleResponse⟩ 0)⟩

/-- A second `Warm` is about to publish. -/
def warmedAgain : List (Action Unit) :=
  warmed ++ [.start () (.warm sampleSpec) none, .run 1 .ok none, .run 1 .ok none, .run 1 .ok none,
    .run 1 .ok (some sampleResponse), .run 1 .ok none, .run 1 .ok none]

/-- Its error path, after the script. -/
def errorPath : List (Action Unit) := [.run 1 .ok none, .run 1 .ok none]

/-- The script of a second `Warm` is executed, but its reply gets lost; everything else works. The
call returns an error, and the manifest names a generation whose chunk is gone. -/
theorem lost_reply_empties_entry :
    ∃ s₁ s₂ s₃ : State Unit,
      Run step (fun _ a => a.atomic ∧ a.faultless) init s₁ ∧ s₁.Servable sampleSpec.key ∧
      s₁.threads[1]?.map Thread.pc = some (.swap secondJob ⟨4, sampleResponse⟩ 0) ∧
      step s₁ (.run 1 .lost none) = some s₂ ∧
      Run step (fun _ a => a.atomic ∧ a.faultless) s₂ s₃ ∧
      s₃.threads[1]?.map Thread.pc = some (.returned (.error .redis)) ∧
      ¬ s₃.Servable sampleSpec.key := by
  have hswap : (exec step (init : State Unit) warmedAgain).map (fun s =>
      (s.threads[1]?.map Thread.pc,
        (s.redis.loadManifest "iptv:cache:p:e").map Manifest.pinned)) =
      some (some (.swap secondJob ⟨4, sampleResponse⟩ 0), some (some 2)) := by
    decide +kernel
  have hend : (exec step (init : State Unit) warmedAgain).map (fun s =>
      (step s (.run 1 .lost none)).map fun s => (exec step s errorPath).map fun s =>
        (s.threads[1]?.map Thread.pc, s.redis.loadManifest "iptv:cache:p:e",
          s.redis.chunks.has s.now ⟨"iptv:cache:p:e", 4, 0⟩)) =
      some (some (some (some (.returned (.error .redis)),
        some (secondJob.manifest ⟨4, sampleResponse⟩ 0), false))) := by
    decide +kernel
  have hok : ∀ a ∈ warmedAgain ++ errorPath, ∀ _ : State Unit, a.atomic ∧ a.faultless := by
    simp [warmedAgain, warmed, errorPath, Action.atomic, Action.plain, Action.faultless,
      Call.plain]
  obtain ⟨s₁, hs₁, hobs₁⟩ := Option.map_eq_some_iff.mp hswap
  rw [hs₁, Option.map_some] at hend
  obtain ⟨hpc, hpins⟩ := Prod.mk.inj hobs₁
  obtain ⟨m, hm, hg⟩ := Option.map_eq_some_iff.mp hpins
  obtain ⟨s₂, hs₂, hrest⟩ := Option.map_eq_some_iff.mp (Option.some.inj hend)
  obtain ⟨s₃, hs₃, hobs₃⟩ := Option.map_eq_some_iff.mp hrest
  obtain ⟨hreturned, hobs₃⟩ := Prod.mk.inj hobs₃
  obtain ⟨hmanifest, hgone⟩ := Prod.mk.inj hobs₃
  have hrun₁ : Run step (fun _ a => a.atomic ∧ a.faultless) init s₁ :=
    Run.of_exec (fun a ha => hok a (List.mem_append_left _ ha)) hs₁
  have hrun₃ : Run step (fun _ a => a.atomic ∧ a.faultless) s₂ s₃ :=
    Run.of_exec (fun a ha => hok a (List.mem_append_right _ ha)) hs₃
  have hserv : s₁.Servable sampleSpec.key :=
    (sound_of_run (hrun₁.mono fun _ _ ha => ha.1)).servable ⟨m, 2, hm, hg⟩
  refine ⟨s₁, s₂, s₃, hrun₁, hserv, hpc, hs₂, hrun₃, hreturned, ?_⟩
  rintro ⟨m', g, hm', hg', hchunks⟩
  obtain rfl := Option.some.inj (hmanifest.symm.trans hm')
  obtain rfl := Option.some.inj ((show _ = some 4 from rfl).symm.trans hg')
  have hhas := hchunks 0 (by decide)
  rw [show sampleSpec.key = "iptv:cache:p:e" from rfl, hgone] at hhas
  cases hhas

end IptvProxy.Cache
