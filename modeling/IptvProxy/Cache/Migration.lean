import IptvProxy.Cache.Failure

/-!
# Legacy entries

`MigrateLegacy` of `internal/cache/migrate.go`: the entry of an old key is published under the
canonical key of its spec, and then the old key is deleted. Any of its commands may fail without an
effect, its context may be cancelled, and time may pass.

Nothing is lost if the canonical key has an entry already, or if the old body is stored inline and
is not empty (`migration_loses_nothing`). The lease `get` takes on an old entry with chunks is never
given back, since nobody calls `Release` of its response (`migration_keeps_lease`).
-/

namespace IptvProxy.Cache

open Agents Transition GenerationStore

/-! ## Entries -/

/-- The entry of a key is this response. Its body is stored inline, or in chunks that do not
expire. -/
def Redis.Serves (redis : Redis) (key : String) (r : Response) : Prop :=
  ∃ h, redis.hash key = some h ∧ h.manifest.response r.body = r ∧
    match h.manifest.pinned with
    | none => h.body = some r.body
    | some g => redis.storedBody key g h.manifest.chunkCount = r.body ∧
      ∀ j < h.manifest.chunkCount, ∃ e, redis.chunks ⟨key, g, j⟩ = some e ∧ e.deadline = none

/-- A key has the same hash and the same chunks. -/
structure SameEntry (redis redis' : Redis) (key : String) : Prop where
  /-- the hash -/
  hash : redis'.hash key = redis.hash key
  /-- the chunks -/
  chunks : ∀ g j, redis'.chunks ⟨key, g, j⟩ = redis.chunks ⟨key, g, j⟩

theorem SameEntry.refl (redis : Redis) (key : String) : SameEntry redis redis key :=
  ⟨rfl, fun _ _ => rfl⟩

theorem SameEntry.trans {redis redis' redis'' : Redis} {key : String}
    (h : SameEntry redis redis' key) (h' : SameEntry redis' redis'' key) :
    SameEntry redis redis'' key :=
  ⟨h'.hash.trans h.hash, fun g j => (h'.chunks g j).trans (h.chunks g j)⟩

theorem SameEntry.storedBody {redis redis' : Redis} {key : String}
    (h : SameEntry redis redis' key) (g n : ℕ) :
    redis'.storedBody key g n = redis.storedBody key g n := by
  induction n with
  | zero => rfl
  | succ n ih => rw [Redis.storedBody, Redis.storedBody, ih, h.chunks]

theorem Redis.Serves.of_same {redis redis' : Redis} {key : String} {r : Response}
    (h : redis.Serves key r) (hs : SameEntry redis redis' key) : redis'.Serves key r := by
  obtain ⟨hash, hhash, hresponse, hbody⟩ := h
  refine ⟨hash, hs.hash.trans hhash, hresponse, ?_⟩
  cases hg : hash.manifest.pinned with
  | none =>
    rw [hg] at hbody
    exact hbody
  | some g =>
    rw [hg] at hbody
    refine ⟨(hs.storedBody g _).trans hbody.1, fun j hj => ?_⟩
    rw [hs.chunks]
    exact hbody.2 j hj

/-! ## A served entry is a hit -/

section Hit

variable {s s₀ s' : State Unit} {i : ℕ} {t : Thread Unit} {key : String} {spec : Spec}
  {r : Response}

/-- `GetOrFetch` of the spec, with every command replied, is a hit with this response. -/
def State.Hits (s : State Unit) (spec : Spec) (r : Response) : Prop :=
  ∃ s₁ s' t, step s (.start () (.getOrFetch spec) none) = some s₁ ∧
    Run step (fun _ a => a = .run s.threads.length .ok none) s₁ s' ∧
    s'.threads[s.threads.length]? = some t ∧ t.call = some (.getOrFetch spec) ∧
    t.pc = .returned (.response r true)

/-- `get` of a body stored inline. -/
theorem Reading.getInline (h : Reading s₀ s i t) {caller : GetCaller} {hash : Hash} {body : Body}
    (hpc : t.pc = .get key caller) (hhash : s₀.redis.hash key = some hash)
    (hpinned : hash.manifest.pinned = none) (hbody : hash.body = some body) :
    ∃ s' u, Run step (fun _ a => a = .run i .ok none) s s' ∧ Reading s₀ s' i u ∧ u.call = t.call ∧
      u.pc = caller.found key hash.manifest (hash.manifest.response body) := by
  have hget := h.goto (.getBody key hash.manifest caller)
  have hfound := hget.goto (caller.found key hash.manifest (hash.manifest.response body))
  refine ⟨_, _, (h.run ?_).trans (hget.run ?_), hfound, rfl, rfl⟩
  · rw [stepThread, hpc]
    dsimp only
    rw [stepGet, h.locked, h.under, if_neg (by decide), h.redis, Redis.loadManifest, hhash]
    dsimp only [Option.map_some]
    rw [hpinned]
  · rw [stepThread]
    dsimp only
    rw [stepGetBody, hget.under, if_neg (by decide), hget.redis, hhash, Option.bind_some, hbody]

theorem Redis.Serves.hits (h : s.redis.Serves key r) (hmu : (s.mgr ()).mu = none)
    (hkey : spec.normalized.key = key) (httl : 0 < spec.normalized.ttl)
    (hvalid : validateSpec spec.normalized = none) : s.Hits spec r := by
  obtain ⟨hash, hhash, hresponse, hbody⟩ := h
  cases hg : hash.manifest.pinned with
  | none =>
    rw [hg] at hbody
    obtain ⟨t, hstep, hstart, hcall, hpc⟩ := Reading.start hmu hkey httl hvalid
    obtain ⟨s₁, t₁, hrun₁, h₁, hcall₁, hpc₁⟩ := hstart.getInline hpc hhash hg hbody
    obtain ⟨s₂, t₂, hrun₂, h₂, hcall₂, hpc₂⟩ := h₁.hit hpc₁
    rw [hresponse] at hpc₂
    exact ⟨_, s₂, t₂, hstep, hrun₁.trans hrun₂, h₂, hcall₂.trans (hcall₁.trans hcall), hpc₂⟩
  | some g =>
    rw [hg] at hbody
    obtain ⟨hbody, hchunks⟩ := hbody
    have hm : s.redis.loadManifest key = some hash.manifest := by
      rw [Redis.loadManifest, hhash]
      rfl
    have hhas : ∀ j < hash.manifest.chunkCount, s.redis.chunks.has s.now ⟨key, g, j⟩ = true := by
      intro j hj
      obtain ⟨e, he, hdeadline⟩ := hchunks j hj
      rw [ExpiringMap.has, ExpiringMap.lookup_of_deadline_none s.now he hdeadline]
      rfl
    have hhit := response_of_servable hm hg hhas hmu hkey httl hvalid
    rw [hbody, hresponse] at hhit
    exact hhit

end Hit

/-! ## Where the response is -/

section Migration

variable (s₀ : State Unit) (oldKey : String) (spec : Spec) (r : Response)

/-- The canonical key has an entry before the migration. -/
def Held : Prop := (s₀.redis.loadManifest spec.key).isSome = true

/-- The response of the old key is stored inline, and it is not empty. -/
structure Inline : Prop where
  /-- inline -/
  hash : ∃ h, s₀.redis.hash oldKey = some h ∧ h.manifest.pinned = none ∧ h.body = some r.body ∧
    h.manifest.response r.body = r
  /-- not empty -/
  nonempty : r.body ≠ []

/-- An entry of the canonical key is as it was. If there was none, the response is the entry of the
old key or of the canonical one. -/
structure Safe (redis : Redis) : Prop where
  /-- an entry of the canonical key -/
  held : Held s₀ spec → SameEntry s₀.redis redis spec.key
  /-- the response -/
  kept : ¬Held s₀ spec → redis.Serves oldKey r ∨ redis.Serves spec.key r

/-- The canonical key has its entry. -/
structure Arrived (redis : Redis) : Prop where
  /-- the spec is valid -/
  valid : validateSpec spec = none
  /-- the one that was there -/
  held : Held s₀ spec → SameEntry s₀.redis redis spec.key
  /-- the response -/
  published : ¬Held s₀ spec → redis.Serves spec.key r

/-- The old key is as it was, and the canonical one has had no entry. -/
structure Copying (redis : Redis) : Prop where
  /-- the spec is valid -/
  valid : validateSpec spec = none
  /-- the canonical key -/
  notHeld : ¬Held s₀ spec
  /-- the old key -/
  hash : redis.hash oldKey = s₀.redis.hash oldKey

/-- What is published. -/
def migrateJob : Job := ⟨spec, .migrate oldKey, 0, none⟩

/-- The response is staged up to a chunk. -/
structure StagedUpTo (redis : Redis) (job : Job) (staged : Staged) (n : ℕ) : Prop where
  /-- the copy is on its way -/
  copying : Copying s₀ oldKey spec redis
  /-- what is published -/
  job : job = migrateJob oldKey spec
  /-- the response -/
  response : staged.response = r
  /-- the chunks -/
  chunks : ∀ j < n, ∃ e, redis.chunks ⟨spec.key, staged.generation, j⟩ = some e ∧
    e.value = bodyChunk r.body j

/-- Where the response is, when the migration is here. -/
def At (redis : Redis) : Pc → Prop
  | .migrateLoad key sp => key = oldKey ∧ sp = spec ∧ validateSpec spec = none ∧
    redis.hash oldKey = s₀.redis.hash oldKey ∧ SameEntry s₀.redis redis spec.key
  | .get key caller => key = oldKey ∧ caller = .migrate spec ∧ Copying s₀ oldKey spec redis
  | .getBody key m caller => key = oldKey ∧ caller = .migrate spec ∧
    Copying s₀ oldKey spec redis ∧ s₀.redis.loadManifest oldKey = some m
  | .migratePublish key sp response => key = oldKey ∧ sp = spec ∧ response = r ∧
    Copying s₀ oldKey spec redis
  | .writeChunk job staged j => StagedUpTo s₀ oldKey spec r redis job staged j
  | .stamp job staged => StagedUpTo s₀ oldKey spec r redis job staged (chunkCount r.body)
  | .swap job staged _ => StagedUpTo s₀ oldKey spec r redis job staged (chunkCount r.body)
  | .cleanup key _ _ _ _ next =>
    -- the chunks of a failed publication, or those of the old entry
    (key = spec.key ∧ Copying s₀ oldKey spec redis ∧ ∃ e, next = .returned (.error e)) ∨
      (key = oldKey ∧ Arrived s₀ spec r redis ∧ next = .duplicateForget oldKey)
  | .registerLoad sp next => sp = spec ∧ Arrived s₀ spec r redis ∧ next = .duplicateLoad oldKey
  | .register _ _ next => Arrived s₀ spec r redis ∧ next = .duplicateLoad oldKey
  | .scheduleFromMeta _ _ next => Arrived s₀ spec r redis ∧ next = .duplicateLoad oldKey
  | .schedule _ _ next => Arrived s₀ spec r redis ∧ next = .duplicateLoad oldKey
  | .migrateRegister key _ => key = oldKey ∧ Arrived s₀ spec r redis
  | .duplicateLoad key => key = oldKey ∧ Arrived s₀ spec r redis
  | .duplicateForget key => key = oldKey ∧ Arrived s₀ spec r redis
  | .duplicateDel key => key = oldKey ∧ Arrived s₀ spec r redis ∧ (s₀.mgr ()).mu = none
  | .returned .ok => redis.hash oldKey = none ∧ Arrived s₀ spec r redis ∧ (s₀.mgr ()).mu = none
  | .returned (.error _) => Safe s₀ oldKey spec r redis
  | _ => False

/-- The maps of the readers and of the retired generations are as they were, and so is the
mutex. -/
structure SameMaps (s : State Unit) : Prop where
  /-- the readers -/
  readers : (s.mgr ()).readers = (s₀.mgr ()).readers
  /-- the retired generations -/
  retired : (s.mgr ()).retired = (s₀.mgr ()).retired
  /-- the mutex -/
  mu : (s.mgr ()).mu = (s₀.mgr ()).mu

/-- **The invariant** of a migration that is thread `i`. -/
structure Migrating (i : ℕ) (s : State Unit) : Prop where
  /-- the maps -/
  maps : SameMaps s₀ s
  /-- where it is -/
  thread : ∃ t, s.threads[i]? = some t ∧ At s₀ oldKey spec r s.redis t.pc

/-- Only thread `i` goes on. A command that fails has no effect, the context of the call may be
cancelled, and time passes. -/
def Action.alone (i : ℕ) : Action Unit → Prop
  | .run k o _ => k = i ∧ o ≠ .lost
  | .cancel k => k = i
  | .tick _ => True
  | _ => False

variable {s₀ oldKey spec r} {s s' : State Unit} {i : ℕ} {t : Thread Unit} {o : Outcome} {pc : Pc}
  {redis : Redis}

theorem SameMaps.refl (s : State Unit) : SameMaps s s := ⟨rfl, rfl, rfl⟩

theorem Inline.serves (h : Inline s₀ oldKey r) (hhash : redis.hash oldKey = s₀.redis.hash oldKey) :
    redis.Serves oldKey r := by
  obtain ⟨hash, hold, hpinned, hbody, hresponse⟩ := h.hash
  refine ⟨hash, hhash.trans hold, hresponse, ?_⟩
  rw [hpinned]
  exact hbody

theorem Arrived.safe (h : Arrived s₀ spec r redis) : Safe s₀ oldKey spec r redis :=
  ⟨h.held, fun hno => .inr (h.published hno)⟩

theorem Arrived.of_same {redis' : Redis} (h : Arrived s₀ spec r redis)
    (hs : SameEntry redis redis' spec.key) : Arrived s₀ spec r redis' :=
  ⟨h.valid, fun hyes => (h.held hyes).trans hs, fun hno => (h.published hno).of_same hs⟩

theorem Copying.safe (h : Copying s₀ oldKey spec redis) (hinline : Inline s₀ oldKey r) :
    Safe s₀ oldKey spec r redis :=
  ⟨fun hyes => absurd hyes h.notHeld, fun _ => .inl (hinline.serves h.hash)⟩

/-- What follows a section that leaves the server alone. -/
theorem Migrating.goto (h : SameMaps s₀ s) (hi : s.threads[i]? = some t)
    (hat : At s₀ oldKey spec r s.redis pc) : Migrating s₀ oldKey spec r i (s.goto i t pc) where
  maps := ⟨h.readers, h.retired, h.mu⟩
  thread := ⟨_, getElem?_set_of_some hi, hat⟩

theorem loadManifest_of_hash {redis' : Redis} {key : String}
    (h : redis'.hash key = redis.hash key) : redis'.loadManifest key = redis.loadManifest key := by
  rw [Redis.loadManifest, h, Redis.loadManifest]

/-! ## Before the publication -/

/-- The publish script makes the response the entry of the canonical key. -/
theorem StagedUpTo.arrived {job : Job} {staged : Staged} {fetchedAt : ℕ}
    (h : StagedUpTo s₀ oldKey spec r s.redis job staged (chunkCount r.body))
    (hinline : Inline s₀ oldKey r)
    (hexist : stagedChunksExist s.redis.chunks s.now job.spec.key staged.generation
      (chunkCount staged.response.body) = true) :
    Arrived s₀ spec r (publishGenerationScript s job staged fetchedAt).redis := by
  obtain ⟨hcopying, rfl, rfl, hchunks⟩ := h
  have hstored : ∀ j < chunkCount staged.response.body, ∃ e,
      persistChunks s.redis.chunks s.now spec.key staged.generation
        (chunkCount staged.response.body) ⟨spec.key, staged.generation, j⟩ = some e ∧
      e.value = bodyChunk staged.response.body j ∧ e.deadline = none := by
    intro j hj
    rw [persistChunks_eq]
    obtain ⟨e, he, hdeadline⟩ := persistAll_self hj (has_of_stagedChunksExist hexist hj)
    obtain ⟨e₀, he₀, hvalue₀⟩ := persistAll_eq_some _ he
    obtain ⟨e₁, he₁, hvalue₁⟩ := hchunks j hj
    obtain rfl := Option.some.inj (he₀.symm.trans he₁)
    exact ⟨e, he, hvalue₀.symm.trans hvalue₁, hdeadline⟩
  refine ⟨hcopying.valid, fun hyes => absurd hyes hcopying.notHeld, fun _ => ?_⟩
  refine ⟨_, Function.update_self .., rfl, ?_⟩
  rw [show ((migrateJob oldKey spec).manifest staged fetchedAt).pinned = some staged.generation from
    Manifest.pinned_isSome rfl (chunkCount_pos hinline.nonempty)]
  refine ⟨?_, fun j hj => ?_⟩
  · have hprefix : Redis.storedBody _ spec.key staged.generation _ =
        chunkPrefix staged.response.body (chunkCount staged.response.body) :=
      Redis.storedBody_eq_chunkPrefix
        (r := (publishGenerationScript s (migrateJob oldKey spec) staged fetchedAt).redis)
        fun j hj => (hstored j hj).imp fun e he => ⟨he.1, he.2.1⟩
    exact hprefix.trans (chunkPrefix_chunkCount _)
  · obtain ⟨e, he, -, hdeadline⟩ := hstored j hj
    exact ⟨e, he, hdeadline⟩

theorem at_staging {job : Job} {staged : Staged} {j : ℕ}
    (h : StagedUpTo s₀ oldKey spec r redis job staged j) :
    At s₀ oldKey spec r redis (job.staging staged j) := by
  rw [Job.staging]
  split
  · exact h
  · next hdone =>
    rw [h.response] at hdone
    exact { h with chunks := fun k hk => h.chunks k (by omega) }

theorem at_cleanup_staged {g n : ℕ} {background : Bool} {e : Error}
    (h : Copying s₀ oldKey spec redis) (hinline : Inline s₀ oldKey r) :
    At s₀ oldKey spec r redis
      (Pc.cleanupGeneration spec.key g n background ((migrateJob oldKey spec).failed e)) := by
  rw [Pc.cleanupGeneration]
  split
  · exact .inl ⟨rfl, h, e, rfl⟩
  · exact h.safe hinline

/-- What holds of every section. -/
structure Setting (s₀ : State Unit) (oldKey : String) (spec : Spec) (r : Response) : Prop where
  /-- another key -/
  ne : spec.key ≠ oldKey
  /-- the cache is enabled -/
  ttl : 0 < spec.ttl
  /-- the response is stored inline, if it has to be published -/
  inline : validateSpec spec = none → ¬Held s₀ spec → Inline s₀ oldKey r

theorem Copying.inline (h : Copying s₀ oldKey spec redis) (hset : Setting s₀ oldKey spec r) :
    Inline s₀ oldKey r :=
  hset.inline h.valid h.notHeld

theorem Migrating.migrateLoad (hset : Setting s₀ oldKey spec r) (hmaps : SameMaps s₀ s)
    (hi : s.threads[i]? = some t) (hvalid : validateSpec spec = none)
    (hhash : s.redis.hash oldKey = s₀.redis.hash oldKey)
    (hsame : SameEntry s₀.redis s.redis spec.key) :
    Migrating s₀ oldKey spec r i (stepMigrateLoad s i t o oldKey spec) := by
  rw [stepMigrateLoad]
  by_cases hreply : (t.under s.now o).replied = false
  · rw [if_pos hreply]
    exact .goto hmaps hi ⟨fun _ => hsame, fun hno => .inl ((hset.inline hvalid hno).serves hhash)⟩
  · rw [if_neg hreply]
    have hload : s.redis.loadManifest spec.key = s₀.redis.loadManifest spec.key :=
      loadManifest_of_hash hsame.hash
    cases hfound : s.redis.loadManifest spec.key with
    | none =>
      have hno : ¬Held s₀ spec := by
        rw [Held, ← hload, hfound]
        exact Bool.false_ne_true
      exact .goto hmaps hi ⟨rfl, rfl, hvalid, hno, hhash⟩
    | some m =>
      -- the canonical entry wins, and only the old key will be deleted
      have hyes : Held s₀ spec := by
        rw [Held, ← hload, hfound]
        rfl
      have hentry : registerEntry spec (.duplicateLoad oldKey) =
          .registerLoad spec (.duplicateLoad oldKey) := by
        rw [registerEntry, hvalid]
        exact if_neg (Int.not_le.mpr hset.ttl)
      dsimp only
      rw [hentry]
      exact .goto hmaps hi ⟨rfl, ⟨hvalid, fun _ => hsame, fun hno => absurd hyes hno⟩, rfl⟩

theorem Migrating.get (hset : Setting s₀ oldKey spec r) (hmaps : SameMaps s₀ s)
    (hi : s.threads[i]? = some t) (hcopying : Copying s₀ oldKey spec s.redis)
    (hstep : stepGet s i t o oldKey (.migrate spec) = some s') :
    Migrating s₀ oldKey spec r i s' := by
  have hinline := hcopying.inline hset
  obtain ⟨hash, hold, hpinned, -, -⟩ := hinline.hash
  have hload : s.redis.loadManifest oldKey = some hash.manifest := by
    rw [Redis.loadManifest, hcopying.hash, hold]
    rfl
  obtain ⟨-, rfl⟩ := State.eq_of_locked hstep
  by_cases hreply : (t.under s.now o).replied = false
  · rw [if_pos hreply]
    exact .goto hmaps hi (hcopying.safe hinline)
  · rw [if_neg hreply, hload]
    dsimp only
    rw [hpinned]
    refine .goto hmaps hi ⟨rfl, rfl, hcopying, ?_⟩
    rw [Redis.loadManifest, hold]
    rfl

theorem Migrating.getBody (hset : Setting s₀ oldKey spec r) (hmaps : SameMaps s₀ s)
    (hi : s.threads[i]? = some t) {m : Manifest} (hcopying : Copying s₀ oldKey spec s.redis)
    (hm : s₀.redis.loadManifest oldKey = some m) :
    Migrating s₀ oldKey spec r i (stepGetBody s i t o oldKey m (.migrate spec)) := by
  have hinline := hcopying.inline hset
  obtain ⟨hash, hold, -, hbody, hresponse⟩ := hinline.hash
  rw [stepGetBody]
  by_cases hreply : (t.under s.now o).replied = false
  · rw [if_pos hreply]
    exact .goto hmaps hi (hcopying.safe hinline)
  · rw [Redis.loadManifest, hold] at hm
    obtain rfl := Option.some.inj hm
    rw [if_neg hreply, hcopying.hash, hold, Option.bind_some, hbody]
    exact .goto hmaps hi ⟨rfl, rfl, hresponse, hcopying⟩

theorem Migrating.migratePublish (hset : Setting s₀ oldKey spec r) (hmaps : SameMaps s₀ s)
    (hi : s.threads[i]? = some t) (hcopying : Copying s₀ oldKey spec s.redis) :
    Migrating s₀ oldKey spec r i (stepMigratePublish s i t oldKey spec r) := by
  rw [stepMigratePublish, if_neg (Int.not_le.mpr hset.ttl)]
  exact @Migrating.goto s₀ oldKey spec r s.bumpID i t _ ⟨hmaps.readers, hmaps.retired, hmaps.mu⟩ hi
    (at_staging ⟨hcopying, rfl, rfl, fun j hj => absurd hj (Nat.not_lt_zero j)⟩)

theorem Migrating.writeChunk (hset : Setting s₀ oldKey spec r) (hmaps : SameMaps s₀ s)
    (hi : s.threads[i]? = some t) (ho : o ≠ .lost) {job : Job} {staged : Staged} {j : ℕ}
    (h : StagedUpTo s₀ oldKey spec r s.redis job staged j) :
    Migrating s₀ oldKey spec r i (stepWriteChunk s i t o job staged j) := by
  have hinline := h.copying.inline hset
  obtain rfl := h.job
  rw [stepWriteChunk]
  cases hout : t.under s.now o with
  | lost => exact absurd hout (under_ne_lost ho s.now)
  | fail => exact .goto hmaps hi (at_cleanup_staged h.copying hinline)
  | ok =>
    refine @Migrating.goto s₀ oldKey spec r (s.setChunks _) i t _
      ⟨hmaps.readers, hmaps.retired, hmaps.mu⟩ hi
      (at_staging ⟨⟨h.copying.valid, h.copying.notHeld, h.copying.hash⟩, rfl, h.response, ?_⟩)
    intro k hk
    by_cases hkj : k = j
    · subst hkj
      refine ⟨_, ExpiringMap.set_self .., ?_⟩
      rw [h.response]
    · obtain ⟨e, he, hvalue⟩ := h.chunks k (by omega)
      refine ⟨e, ?_, hvalue⟩
      rw [← he]
      exact ExpiringMap.set_ne _ _ _ fun heq => hkj (congrArg Chunk.index heq)

theorem Migrating.swap (hset : Setting s₀ oldKey spec r) (hmaps : SameMaps s₀ s)
    (hi : s.threads[i]? = some t) (ho : o ≠ .lost) {job : Job} {staged : Staged} {fetchedAt : ℕ}
    (h : StagedUpTo s₀ oldKey spec r s.redis job staged (chunkCount r.body))
    (hstep : stepSwap s i t o job staged fetchedAt = some s') :
    Migrating s₀ oldKey spec r i s' := by
  have hinline := h.copying.inline hset
  obtain ⟨-, rfl⟩ := State.eq_of_locked hstep
  obtain rfl := h.job
  cases hout : t.under s.now o with
  | lost => exact absurd hout (under_ne_lost ho s.now)
  | fail => exact .goto hmaps hi (at_cleanup_staged h.copying hinline)
  | ok =>
    dsimp only
    -- time may have passed since the chunks were written, and they expire
    cases hexist : stagedChunksExist s.redis.chunks s.now (migrateJob oldKey spec).spec.key
      staged.generation (chunkCount staged.response.body) with
    | false => exact .goto hmaps hi (at_cleanup_staged h.copying hinline)
    | true =>
      exact @Migrating.goto s₀ oldKey spec r
        (publishGenerationScript s (migrateJob oldKey spec) staged fetchedAt) i t _
        ⟨hmaps.readers, hmaps.retired, hmaps.mu⟩ hi ⟨rfl, h.arrived hinline hexist⟩

/-! ## After the publication -/

theorem Migrating.cleanup (hset : Setting s₀ oldKey spec r) (hmaps : SameMaps s₀ s)
    (hi : s.threads[i]? = some t) {key : String} {g n j : ℕ} {background : Bool} {next : Pc}
    (hat : At s₀ oldKey spec r s.redis (.cleanup key g n j background next)) :
    Migrating s₀ oldKey spec r i (stepCleanup s i t o key g n j background next) := by
  have hnext : ∀ {redis : Redis},
      At s₀ oldKey spec r redis (.cleanup key g n (j + 1) background next) →
      At s₀ oldKey spec r redis
        (if j + 1 < n then .cleanup key g n (j + 1) background next else next) := by
    intro redis hat
    split
    · exact hat
    · rcases hat with ⟨-, hcopying, e, rfl⟩ | ⟨hkey, harrived, rfl⟩
      · exact hcopying.safe (hcopying.inline hset)
      · exact ⟨rfl, harrived⟩
  rw [stepCleanup]
  by_cases happlied : (if background then o else t.under s.now o).applied = true
  · rw [if_pos happlied]
    refine @Migrating.goto s₀ oldKey spec r (s.setChunks _) i t _
      ⟨hmaps.readers, hmaps.retired, hmaps.mu⟩ hi (hnext ?_)
    rcases hat with ⟨hkey, hcopying, he⟩ | ⟨rfl, harrived, hduplicate⟩
    · exact .inl ⟨hkey, ⟨hcopying.valid, hcopying.notHeld, hcopying.hash⟩, he⟩
    · -- a chunk of the old key is none of the canonical one
      refine .inr ⟨rfl, harrived.of_same ⟨rfl, fun g' j' => ?_⟩, hduplicate⟩
      exact ExpiringMap.del_ne _ fun heq => hset.ne (congrArg Chunk.key heq)
  · rw [if_neg happlied]
    exact .goto hmaps hi (hnext hat)

theorem Migrating.registerLoad (hmaps : SameMaps s₀ s) (hi : s.threads[i]? = some t)
    (h : Arrived s₀ spec r s.redis) :
    Migrating s₀ oldKey spec r i (stepRegisterLoad s i t o spec (.duplicateLoad oldKey)) := by
  rw [stepRegisterLoad]
  split
  · exact .goto hmaps hi h.safe
  · split
    · exact .goto hmaps hi h.safe
    · exact .goto hmaps hi ⟨h, rfl⟩

theorem Migrating.duplicateLoad (hmaps : SameMaps s₀ s) (hi : s.threads[i]? = some t)
    (h : Arrived s₀ spec r s.redis) :
    Migrating s₀ oldKey spec r i (stepDuplicateLoad s i t o oldKey) := by
  rw [stepDuplicateLoad]
  split
  · exact .goto hmaps hi h.safe
  · split
    · exact .goto hmaps hi ⟨rfl, h⟩
    · refine .goto hmaps hi ?_
      rw [Pc.cleanupGeneration]
      split
      · exact .inr ⟨rfl, h, rfl⟩
      · exact ⟨rfl, h⟩

theorem Migrating.duplicateDel (hset : Setting s₀ oldKey spec r) (hmaps : SameMaps s₀ s)
    (hi : s.threads[i]? = some t) (ho : o ≠ .lost) (h : Arrived s₀ spec r s.redis)
    (hmu : (s₀.mgr ()).mu = none) :
    Migrating s₀ oldKey spec r i (stepDuplicateDel s i t o oldKey) := by
  rw [stepDuplicateDel]
  cases hout : t.under s.now o with
  | lost => exact absurd hout (under_ne_lost ho s.now)
  | fail => exact .goto hmaps hi h.safe
  | ok =>
    have hsame : SameEntry s.redis (s.setHash oldKey none).redis spec.key :=
      ⟨Function.update_of_ne hset.ne .., fun _ _ => rfl⟩
    exact @Migrating.goto s₀ oldKey spec r
      ((s.setHash oldKey none).setLocks (s.redis.locks.del oldKey)) i t _
      ⟨hmaps.readers, hmaps.retired, hmaps.mu⟩ hi
      ⟨Function.update_self .., h.of_same ⟨hsame.hash, hsame.chunks⟩, hmu⟩

/-! ## Every section -/

/-- A section under the mutex that changes neither map. -/
theorem Migrating.setMgr (hmaps : SameMaps s₀ s) (hi : s.threads[i]? = some t) {m : Manager}
    (hreaders : m.readers = (s.mgr ()).readers) (hretired : m.retired = (s.mgr ()).retired)
    (hmu : m.mu = (s.mgr ()).mu) (hat : At s₀ oldKey spec r s.redis pc) :
    Migrating s₀ oldKey spec r i ((s.setMgr t.pid m).goto i t pc) := by
  refine @Migrating.goto s₀ oldKey spec r (s.setMgr t.pid m) i t _ ⟨?_, ?_, ?_⟩ hi hat
  · rw [State.setMgr_mgr]
    exact hreaders.trans hmaps.readers
  · rw [State.setMgr_mgr]
    exact hretired.trans hmaps.retired
  · rw [State.setMgr_mgr]
    exact hmu.trans hmaps.mu

/-- **One section** of the migration. -/
theorem Migrating.run (hset : Setting s₀ oldKey spec r) (h : Migrating s₀ oldKey spec r i s)
    (hi : s.threads[i]? = some t) (ho : o ≠ .lost) {fetched : Option Response}
    (hstep : stepThread s i t o fetched = some s') : Migrating s₀ oldKey spec r i s' := by
  obtain ⟨hmaps, u, hu, hat⟩ := h
  obtain rfl := Option.some.inj (hi.symm.trans hu)
  rw [stepThread.eq_def] at hstep
  cases hpc : t.pc with
  | migrateLoad key sp =>
    rw [hpc] at hat hstep
    obtain ⟨rfl, rfl, hvalid, hhash, hsame⟩ := hat
    obtain rfl := Option.some.inj hstep
    exact .migrateLoad hset hmaps hi hvalid hhash hsame
  | get key caller =>
    rw [hpc] at hat hstep
    obtain ⟨rfl, rfl, hcopying⟩ := hat
    exact .get hset hmaps hi hcopying hstep
  | getBody key m caller =>
    rw [hpc] at hat hstep
    obtain ⟨rfl, rfl, hcopying, hm⟩ := hat
    obtain rfl := Option.some.inj hstep
    exact .getBody hset hmaps hi hcopying hm
  | migratePublish key sp response =>
    rw [hpc] at hat hstep
    obtain ⟨rfl, rfl, rfl, hcopying⟩ := hat
    obtain rfl := Option.some.inj hstep
    exact .migratePublish hset hmaps hi hcopying
  | writeChunk job staged j =>
    rw [hpc] at hat hstep
    obtain rfl := Option.some.inj hstep
    exact .writeChunk hset hmaps hi ho hat
  | stamp job staged =>
    rw [hpc] at hat hstep
    obtain rfl := Option.some.inj hstep
    exact .goto hmaps hi hat
  | swap job staged fetchedAt =>
    rw [hpc] at hat hstep
    exact .swap hset hmaps hi ho hat hstep
  | cleanup key g n j background next =>
    rw [hpc] at hat hstep
    obtain rfl := Option.some.inj hstep
    exact .cleanup hset hmaps hi hat
  | registerLoad sp next =>
    rw [hpc] at hat hstep
    obtain ⟨rfl, harrived, rfl⟩ := hat
    obtain rfl := Option.some.inj hstep
    exact .registerLoad hmaps hi harrived
  | register sp info next =>
    rw [hpc] at hat hstep
    obtain ⟨-, rfl⟩ := State.eq_of_locked hstep
    exact .setMgr hmaps hi rfl rfl rfl hat
  | scheduleFromMeta sp info next =>
    rw [hpc] at hat hstep
    obtain rfl := Option.some.inj hstep
    exact .goto hmaps hi hat
  | schedule sp delay next =>
    rw [hpc] at hat hstep
    obtain ⟨harrived, rfl⟩ := hat
    obtain ⟨-, rfl⟩ := State.eq_of_locked hstep
    exact .setMgr hmaps hi rfl rfl rfl ⟨rfl, harrived⟩
  | migrateRegister key sp =>
    rw [hpc] at hat hstep
    obtain ⟨rfl, harrived⟩ := hat
    obtain ⟨-, rfl⟩ := State.eq_of_locked hstep
    exact .setMgr hmaps hi rfl rfl rfl ⟨harrived, rfl⟩
  | duplicateLoad key =>
    rw [hpc] at hat hstep
    obtain ⟨rfl, harrived⟩ := hat
    obtain rfl := Option.some.inj hstep
    exact .duplicateLoad hmaps hi harrived
  | duplicateForget key =>
    rw [hpc] at hat hstep
    obtain ⟨rfl, harrived⟩ := hat
    obtain ⟨hmu, rfl⟩ := State.eq_of_locked hstep
    exact .setMgr hmaps hi rfl rfl rfl ⟨rfl, harrived, hmaps.mu.symm.trans hmu⟩
  | duplicateDel key =>
    rw [hpc] at hat hstep
    obtain ⟨rfl, harrived, hmu⟩ := hat
    obtain rfl := Option.some.inj hstep
    exact .duplicateDel hset hmaps hi ho harrived hmu
  | returned result =>
    rw [hpc] at hstep
    cases hstep
  | _ =>
    rw [hpc] at hat
    exact hat.elim

theorem Migrating.step (hset : Setting s₀ oldKey spec r) (h : Migrating s₀ oldKey spec r i s)
    {a : Action Unit} (ha : a.alone i) (hstep : step s a = some s') :
    Migrating s₀ oldKey spec r i s' := by
  obtain ⟨u, hu, hat⟩ := h.thread
  cases a with
  | run k o fetched =>
    obtain ⟨rfl, ho⟩ := ha
    rw [Cache.step, hu] at hstep
    exact h.run hset hu ho hstep
  | cancel k =>
    obtain rfl := ha
    rw [Cache.step, hu] at hstep
    dsimp only at hstep
    split at hstep
    · obtain rfl := Option.some.inj hstep
      exact ⟨⟨h.maps.readers, h.maps.retired, h.maps.mu⟩, _, getElem?_set_of_some hu, hat⟩
    · cases hstep
  | tick d =>
    obtain rfl := Option.some.inj hstep
    exact ⟨⟨h.maps.readers, h.maps.retired, h.maps.mu⟩, u, hu, hat⟩
  | start | fire | release | restart => exact ha.elim

/-- Wherever the migration is, nothing is lost. -/
theorem safe_of_at (hset : Setting s₀ oldKey spec r) (h : At s₀ oldKey spec r redis pc) :
    Safe s₀ oldKey spec r redis := by
  cases pc with
  | migrateLoad =>
    obtain ⟨-, -, hvalid, hhash, hsame⟩ := h
    exact ⟨fun _ => hsame, fun hno => .inl ((hset.inline hvalid hno).serves hhash)⟩
  | get =>
    obtain ⟨-, -, hcopying⟩ := h
    exact hcopying.safe (hcopying.inline hset)
  | getBody =>
    obtain ⟨-, -, hcopying, -⟩ := h
    exact hcopying.safe (hcopying.inline hset)
  | migratePublish =>
    obtain ⟨-, -, -, hcopying⟩ := h
    exact hcopying.safe (hcopying.inline hset)
  | writeChunk | stamp | swap => exact h.copying.safe (h.copying.inline hset)
  | cleanup =>
    rcases h with ⟨-, hcopying, -⟩ | ⟨-, harrived, -⟩
    · exact hcopying.safe (hcopying.inline hset)
    · exact harrived.safe
  | registerLoad => exact h.2.1.safe
  | register | scheduleFromMeta | schedule => exact h.1.safe
  | migrateRegister | duplicateLoad | duplicateForget => exact h.2.safe
  | duplicateDel => exact h.2.1.safe
  | returned result =>
    cases result with
    | ok => exact h.2.1.safe
    | error e => exact h
    | response => exact h.elim
  | _ => exact h.elim

end Migration

/-! ## The migration -/

/-- The spec is rejected, or the canonical key has an entry that can be served, or it has none and
the old body is stored inline and is not empty. -/
def Migratable (s₀ : State Unit) (oldKey : String) (spec : Spec) : Prop :=
  validateSpec spec ≠ none ∨ (∃ r, s₀.redis.Serves spec.key r) ∨
    (s₀.redis.loadManifest spec.key = none ∧
      ∃ h body, s₀.redis.hash oldKey = some h ∧ h.manifest.pinned = none ∧ h.body = some body ∧
        body ≠ [])

/-- What a migration of the response `r` that began in `s₀` as thread `i` has to keep in a state
`s` it reaches. -/
structure Kept (s₀ s : State Unit) (i : ℕ) (oldKey : String) (spec : Spec) (r : Response) :
    Prop where
  /-- an entry of the canonical key is as it was, and otherwise the response can be served -/
  safe : Safe s₀ oldKey spec.normalized r s.redis
  /-- after `nil`: no manifest under the old key, a hit, the maps as they were -/
  returned : ∀ t, s.threads[i]? = some t → t.pc = .returned .ok →
    s.redis.hash oldKey = none ∧
    (∃ r', (Held s₀ spec.normalized → s₀.redis.Serves spec.normalized.key r') ∧
      (¬Held s₀ spec.normalized → r' = r) ∧ s.Hits spec r') ∧
    (s.mgr ()).readers = (s₀.mgr ()).readers ∧ (s.mgr ()).retired = (s₀.mgr ()).retired

theorem held_of_serves {s₀ : State Unit} {spec : Spec} {r : Response}
    (h : s₀.redis.Serves spec.key r) : Held s₀ spec := by
  obtain ⟨hash, hhash, -⟩ := h
  rw [Held, Redis.loadManifest, hhash]
  rfl

theorem Migratable.inline {s₀ : State Unit} {oldKey : String} {spec : Spec} {r : Response}
    (h : Migratable s₀ oldKey spec) (hold : s₀.redis.Serves oldKey r)
    (hvalid : validateSpec spec = none) (hno : ¬Held s₀ spec) : Inline s₀ oldKey r := by
  rcases h with hinvalid | ⟨r', hserves⟩ | ⟨-, hash, body, hhash, hpinned, hbody, hne⟩
  · exact absurd hvalid hinvalid
  · exact absurd (held_of_serves hserves) hno
  · obtain ⟨hash', hhash', hresponse, hstored⟩ := hold
    obtain rfl := Option.some.inj (hhash.symm.trans hhash')
    rw [hpinned] at hstored
    refine ⟨⟨hash, hhash, hpinned, hstored, hresponse⟩, ?_⟩
    rw [← Option.some.inj (hbody.symm.trans hstored)]
    exact hne

theorem Migratable.served {s₀ : State Unit} {oldKey : String} {spec : Spec}
    (h : Migratable s₀ oldKey spec) (hvalid : validateSpec spec = none) (hyes : Held s₀ spec) :
    ∃ r, s₀.redis.Serves spec.key r := by
  rcases h with hinvalid | hserves | ⟨hnone, -⟩
  · exact absurd hvalid hinvalid
  · exact hserves
  · rw [Held, hnone] at hyes
    cases hyes

/-- **`MigrateLegacy` loses nothing** where the condition holds. In every state it reaches, an entry
of the canonical key is as it was, and if there was none the response of the old key is served under
one of the two keys; once it has returned `nil` the old key is gone, the next request is a hit, and
no reader is left behind. -/
theorem migration_loses_nothing {s₀ s₁ s : State Unit} {oldKey : String} {spec : Spec}
    {r : Response} {deadline : Option ℕ} (hold : s₀.redis.Serves oldKey r)
    (hne : oldKey ≠ spec.normalized.key) (httl : 0 < spec.normalized.ttl)
    (hwhen : Migratable s₀ oldKey spec.normalized)
    (hstart : step s₀ (.start () (.migrateLegacy oldKey spec) deadline) = some s₁)
    (hrun : Run step (fun _ a => a.alone s₀.threads.length) s₁ s) :
    Kept s₀ s s₀.threads.length oldKey spec r := by
  have hset : Setting s₀ oldKey spec.normalized r := ⟨hne.symm, httl, hwhen.inline hold⟩
  have hfirst : Migrating s₀ oldKey spec.normalized r s₀.threads.length s₁ := by
    obtain rfl := Option.some.inj hstart
    refine ⟨⟨rfl, rfl, rfl⟩, _, List.getElem?_concat_length, ?_⟩
    dsimp only
    rw [Call.entry, if_neg hne]
    cases hvalid : validateSpec spec.normalized with
    | some e => exact ⟨fun _ => .refl .., fun _ => .inl hold⟩
    | none => exact ⟨rfl, rfl, hvalid, rfl, .refl ..⟩
  have hlast : Migrating s₀ oldKey spec.normalized r s₀.threads.length s :=
    hrun.invariant (fun _ _ _ h ha hstep => h.step hset ha hstep) hfirst
  obtain ⟨hmaps, t, ht, hat⟩ := hlast
  refine ⟨safe_of_at hset hat, fun u hu hpc => ?_⟩
  obtain rfl := Option.some.inj (ht.symm.trans hu)
  rw [hpc] at hat
  obtain ⟨hgone, harrived, hmu⟩ := hat
  refine ⟨hgone, ?_, hmaps.readers, hmaps.retired⟩
  have hhits : ∀ r', s.redis.Serves spec.normalized.key r' → s.Hits spec r' := fun r' h =>
    h.hits (hmaps.mu.trans hmu) rfl httl harrived.valid
  by_cases hyes : Held s₀ spec.normalized
  · obtain ⟨r', hserves⟩ := hwhen.served harrived.valid hyes
    exact ⟨r', fun _ => hserves, fun hno => absurd hyes hno,
      hhits r' (hserves.of_same (harrived.held hyes))⟩
  · exact ⟨r, fun h => absurd h hyes, fun _ => rfl, hhits r (harrived.published hyes)⟩

/-- A body stored inline, without a descriptor. -/
def inlineHash : Hash where
  manifest :=
    { status := 200, contentType := "application/json", info := ⟨1, 4102444800, 3600, 0, 0, false⟩,
      descriptor := ⟨"", "", "", []⟩, generation := none, chunkCount := 0 }
  body := some [91]

/-- A server with one legacy entry. -/
def inlineLegacy : State Unit := (init : State Unit).setHash "iptv:cache:p:old" (some inlineHash)

/-- `MigrateLegacy` from the first command to `nil`. -/
def migrates : List (Action Unit) :=
  [.run 0 .ok none, .run 0 .ok none, .run 0 .ok none, .run 0 .ok none, .run 0 .ok none,
    .run 0 .ok none, .run 0 .ok none, .run 0 .ok none, .run 0 .ok none, .run 0 .ok none,
    .run 0 .ok none, .run 0 .ok none]

/-- A legacy entry of one byte is migrated. -/
theorem inline_migration_loses_nothing :
    ∃ s₁ s : State Unit,
      step inlineLegacy (.start () (.migrateLegacy "iptv:cache:p:old" sampleSpec) none) = some s₁ ∧
      Run step (fun _ a => a.alone 0) s₁ s ∧
      s.threads[0]?.map Thread.pc = some (.returned .ok) ∧
      Kept inlineLegacy s 0 "iptv:cache:p:old" sampleSpec sampleResponse := by
  have hend : ((step inlineLegacy
      (.start () (.migrateLegacy "iptv:cache:p:old" sampleSpec) none)).bind fun s =>
        (exec step s migrates).map fun s => s.threads[0]?.map Thread.pc) =
      some (some (.returned .ok)) := by
    decide +kernel
  obtain ⟨s₁, hstart, hend⟩ := Option.bind_eq_some_iff.mp hend
  have halone : ∀ a ∈ migrates, ∀ _ : State Unit, a.alone 0 := by
    simp [migrates, Action.alone]
  obtain ⟨s, hrun, hpc⟩ := Run.of_eval halone hend
  have hhash : inlineLegacy.redis.hash "iptv:cache:p:old" = some inlineHash := by
    simp [inlineLegacy, State.setHash]
  have hold : inlineLegacy.redis.Serves "iptv:cache:p:old" sampleResponse :=
    ⟨inlineHash, hhash, rfl, rfl⟩
  have hwhen : Migratable inlineLegacy "iptv:cache:p:old" sampleSpec.normalized :=
    .inr (.inr ⟨rfl, inlineHash, [91], hhash, rfl, rfl, by decide⟩)
  exact ⟨s₁, s, hstart, hrun, hpc,
    migration_loses_nothing hold (by decide) (by decide) hwhen hstart hrun⟩

/-! ## A lease that stays -/

/-- Another key. -/
def movedSpec : Spec :=
  { sampleSpec with key := "iptv:cache:p:f", descriptor := ⟨"p", "f", "", []⟩ }

/-- `MigrateLegacy` of an entry with one chunk, from the first command to `nil`. -/
def movesChunk : List (Action Unit) :=
  [.run 1 .ok none, .run 1 .ok none, .run 1 .ok none, .run 1 .ok none, .run 1 .ok none,
    .run 1 .ok none, .run 1 .ok none, .run 1 .ok none, .run 1 .ok none, .run 1 .ok none,
    .run 1 .ok none, .run 1 .ok none, .run 1 .ok none]

/-- `Warm` publishes, and its entry is migrated to another key. The lease that `get` has taken is
never given back. -/
theorem migration_keeps_lease :
    ∃ s₀ s₁ s : State Unit, Run step (fun _ a => a.atomic) init s₀ ∧
      s₀.redis.Serves sampleSpec.key sampleResponse ∧ sampleSpec.key ≠ movedSpec.normalized.key ∧
      0 < movedSpec.normalized.ttl ∧ ¬Held s₀ movedSpec.normalized ∧
      step s₀ (.start () (.migrateLegacy sampleSpec.key movedSpec) none) = some s₁ ∧
      Run step (fun _ a => a.alone s₀.threads.length) s₁ s ∧
      ¬Kept s₀ s s₀.threads.length sampleSpec.key movedSpec sampleResponse := by
  have hbefore : (exec step (init : State Unit) warmed).map (fun s =>
      (s.threads.length, s.redis.loadManifest "iptv:cache:p:f",
        (s.mgr ()).readers ("iptv:cache:p:e", 2))) = some (1, none, 0) := by
    decide +kernel
  have hentry : (exec step (init : State Unit) warmed).map (fun s =>
      (s.redis.hash "iptv:cache:p:e",
        (s.redis.chunks ⟨"iptv:cache:p:e", 2, 0⟩).map fun e => (e.value, e.deadline))) =
      some (some ⟨Job.manifest ⟨sampleSpec, .warm, 1, none⟩ ⟨2, sampleResponse⟩ 0, none⟩,
        some ([91], none)) := by
    decide +kernel
  have hafter : (exec step (init : State Unit) warmed).map (fun s =>
      (step s (.start () (.migrateLegacy "iptv:cache:p:e" movedSpec) none)).map fun s =>
        (exec step s movesChunk).map fun s =>
          (s.threads[1]?.map Thread.pc, (s.mgr ()).readers ("iptv:cache:p:e", 2))) =
      some (some (some (some (.returned .ok), 1))) := by
    decide +kernel
  have hatomic : ∀ a ∈ warmed, ∀ _ : State Unit, a.atomic := by
    simp [warmed, Action.atomic, Action.plain, Call.plain]
  have halone : ∀ a ∈ movesChunk, ∀ _ : State Unit, a.alone 1 := by
    simp [movesChunk, Action.alone]
  obtain ⟨s₀, hs₀, hobs₀⟩ := Option.map_eq_some_iff.mp hbefore
  rw [hs₀, Option.map_some] at hafter hentry
  obtain ⟨s₁, hstart, hafter⟩ := Option.map_eq_some_iff.mp (Option.some.inj hafter)
  obtain ⟨s, hrun, hobs⟩ := Run.of_eval halone hafter
  obtain ⟨hlength, hobs₀⟩ := Prod.mk.inj hobs₀
  obtain ⟨hnone, hreaders₀⟩ := Prod.mk.inj hobs₀
  obtain ⟨hhash, hchunk⟩ := Prod.mk.inj (Option.some.inj hentry)
  obtain ⟨e, he, hstored⟩ := Option.map_eq_some_iff.mp hchunk
  obtain ⟨hvalue, hdeadline⟩ := Prod.mk.inj hstored
  obtain ⟨hthread, hreaders⟩ := Prod.mk.inj hobs
  refine ⟨s₀, s₁, s, Run.of_exec hatomic hs₀, ⟨_, hhash, rfl, ?_, ?_⟩, by decide, by decide, ?_,
    hstart, by rwa [hlength], ?_⟩
  · have hbody : s₀.redis.storedBody "iptv:cache:p:e" 2 1 = [91] := by
      rw [Redis.storedBody, Redis.storedBody, he, Option.map_some, Option.getD_some, hvalue]
      rfl
    exact hbody
  · intro j hj
    obtain rfl := Nat.lt_one_iff.mp hj
    exact ⟨e, he, hdeadline⟩
  · rw [Held]
    have hmissing : s₀.redis.loadManifest movedSpec.normalized.key = none := hnone
    rw [hmissing]
    exact Bool.false_ne_true
  · intro hkept
    rw [hlength] at hkept
    obtain ⟨t, ht, hpc⟩ := Option.map_eq_some_iff.mp hthread
    obtain ⟨-, -, hsame, -⟩ := hkept.returned t ht hpc
    rw [hsame, hreaders₀] at hreaders
    cases hreaders

end IptvProxy.Cache
