import IptvProxy.Cache.Simulation
import IptvProxy.Cache.SingleFlight

/-!
# Entries are whole

In every state a single manager reaches, a manifest names a generation all of whose chunks are
stored for good and make up the body it was published with, and every hit is the response of one
publication (`entries_are_whole`). The store's invariant gives the chunks; what is added here is
what the publications say about themselves and what a reader has collected so far.
-/

namespace IptvProxy.Cache

open Agents GenerationStore Transition

/-- A publication as `publish` makes it. -/
def Publication.Ok (p : Publication) : Prop :=
  p.manifest.generation.isSome = true ∧ p.manifest.chunkCount = chunkCount p.body ∧
    p.manifest.info.sizeBytes = p.body.length

/-- Every entry was published: it has a generation and no inline body. -/
def State.NoLegacy (s : State Unit) : Prop :=
  ∀ key h, s.redis.hash key = some h → h.body = none ∧ h.manifest.generation.isSome = true

/-- The response is one published generation of the key. -/
def State.Serves (s : State Unit) (key : String) (r : Response) : Prop :=
  ∃ p ∈ s.published, p.key = key ∧ r = p.manifest.response p.body

/-- The key a `GetOrFetch` asks for. -/
def Call.asks : Call → Option String
  | .getOrFetch spec => some spec.normalized.key
  | _ => none

/-- The key the thread asks for. -/
def Thread.asks (t : Thread Unit) : Option String := t.call.bind Call.asks

/-- What a reader has collected, and what a hit hands out, is of one publication of the key. -/
def Pc.ReadOk (s : State Unit) (asks : Option String) : Pc → Prop
  | .get key _ => asks = some key
  | .getBody key _ _ => asks = some key
  | .getChunk key m g buffer j _ => asks = some key ∧ ∃ p ∈ s.published, p.key = key ∧
      p.manifest = m ∧ m.generation = some g ∧ buffer = chunkPrefix p.body j ∧ j < m.chunkCount
  | .getRegister _ (some (_, r)) => ∃ key, asks = some key ∧ s.Serves key r
  | .returned (.response r true) => ∃ key, asks = some key ∧ s.Serves key r
  | .scheduleFromMeta _ _ next => next.ReadOk s asks
  | .schedule _ _ next => next.ReadOk s asks
  | .releaseReader _ _ next => next.ReadOk s asks
  | .cleanup _ _ _ _ _ next => next.ReadOk s asks
  | .expire _ _ _ _ _ next => next.ReadOk s asks
  | .unlock _ _ next => next.ReadOk s asks
  | .registerLoad _ next => next.ReadOk s asks
  | .register _ _ next => next.ReadOk s asks
  | _ => True

/-- The same for a thread. -/
def Thread.ReadOk (s : State Unit) (t : Thread Unit) : Prop := t.pc.ReadOk s t.asks

/-- What holds in every state a single manager reaches. -/
structure Sound (s : State Unit) : Prop where
  /-- the threads have their shape -/
  shape : s.Shape
  /-- and can rely on what they have read -/
  localOk : s.Local
  /-- the store is in order -/
  store : GenerationStore.Inv (storeView s)
  /-- the publications -/
  published : ∀ p ∈ s.published, p.Ok
  /-- the entries -/
  noLegacy : s.NoLegacy
  /-- the readers -/
  reads : ∀ t ∈ s.threads, t.ReadOk s

section Steps

variable {s s' : State Unit} {i : ℕ} {t : Thread Unit} {o : Outcome}

/-- What a section does to the entries and the publications. -/
inductive Publishes (s s' : State Unit) : Prop where
  /-- nothing -/
  | same (hash : s'.redis.hash = s.redis.hash) (published : s'.published = s.published)
  /-- it deletes an entry -/
  | deleted (key : String) (hash : s'.redis.hash = Function.update s.redis.hash key none)
    (published : s'.published = s.published)
  /-- it publishes an entry -/
  | swapped (job : Job) (staged : Staged) (fetchedAt : ℕ)
    (hash : s'.redis.hash = Function.update s.redis.hash job.spec.key
      (some ⟨job.manifest staged fetchedAt, none⟩))
    (published : s'.published =
      ⟨job.spec.key, job.manifest staged fetchedAt, staged.response.body, job.operation⟩ ::
        s.published)

theorem Ran.publishes (h : Ran s i t o s') : Publishes s s' := by
  cases h with
  | @acquireFailed _ _ _ applied | @removeAcquireFailed _ _ applied =>
    cases applied <;> exact .same rfl rfl
  | swapLost | swapFirst | swapWaits | swapClears => exact .swapped _ _ _ rfl rfl
  | removeDelLost | removeEmpty | removeWaits | removeClears | duplicateDel =>
    exact .deleted _ rfl rfl
  | _ => exact .same rfl rfl

theorem Publishes.subset (h : Publishes s s') : ∀ p ∈ s.published, p ∈ s'.published := by
  intro p hp
  cases h with
  | same _ hpub => rwa [hpub]
  | deleted _ _ hpub => rwa [hpub]
  | swapped _ _ _ _ hpub =>
    rw [hpub]
    exact List.mem_cons_of_mem _ hp

theorem Publishes.ok (h : Publishes s s') (hs : ∀ p ∈ s.published, p.Ok) :
    ∀ p ∈ s'.published, p.Ok := by
  intro p hp
  cases h with
  | same _ hpub => exact hs p (hpub ▸ hp)
  | deleted _ _ hpub => exact hs p (hpub ▸ hp)
  | swapped _ _ _ _ hpub =>
    rw [hpub] at hp
    rcases List.mem_cons.mp hp with rfl | hold
    · exact ⟨rfl, rfl, rfl⟩
    · exact hs p hold

theorem Publishes.noLegacy (h : Publishes s s') (hs : s.NoLegacy) : s'.NoLegacy := by
  intro key e he
  cases h with
  | same hhash _ => exact hs key e (hhash ▸ he)
  | deleted k hhash _ =>
    rw [hhash] at he
    by_cases hk : key = k
    · rw [hk, Function.update_self] at he
      cases he
    · rw [Function.update_of_ne hk] at he
      exact hs key e he
  | swapped job _ _ hhash _ =>
    rw [hhash] at he
    by_cases hk : key = job.spec.key
    · rw [hk, Function.update_self] at he
      obtain rfl := Option.some.inj he
      exact ⟨rfl, rfl⟩
    · rw [Function.update_of_ne hk] at he
      exact hs key e he

theorem State.Serves.mono {key : String} {r : Response} (h : s.Serves key r)
    (hsub : ∀ p ∈ s.published, p ∈ s'.published) : s'.Serves key r := by
  obtain ⟨p, hp, hrest⟩ := h
  exact ⟨p, hsub p hp, hrest⟩

theorem Pc.ReadOk.mono {asks : Option String} {pc : Pc} (h : pc.ReadOk s asks)
    (hsub : ∀ p ∈ s.published, p ∈ s'.published) : pc.ReadOk s' asks := by
  induction pc with
  | getChunk =>
    obtain ⟨hasks, p, hp, hrest⟩ := h
    exact ⟨hasks, p, hsub p hp, hrest⟩
  | getRegister _ found =>
    rcases found with _ | ⟨m, r⟩
    · trivial
    · obtain ⟨key, hasks, hserves⟩ := h
      exact ⟨key, hasks, hserves.mono hsub⟩
  | returned result =>
    rcases result with _ | _ | ⟨r, _ | _⟩
    case response.true =>
      obtain ⟨key, hasks, hserves⟩ := h
      exact ⟨key, hasks, hserves.mono hsub⟩
    all_goals trivial
  | get | getBody => exact h
  | scheduleFromMeta _ _ _ ih | schedule _ _ _ ih | releaseReader _ _ _ ih => exact ih h
  | cleanup _ _ _ _ _ _ ih | expire _ _ _ _ _ _ ih | unlock _ _ _ ih => exact ih h
  | registerLoad _ _ ih | register _ _ _ ih => exact ih h
  | _ => trivial

/-! ## Readers -/

section Readers

variable {asks : Option String}

theorem Operation.readOk_failed (operation : Operation) (spec : Spec) (e : Error) :
    (operation.failed spec e).ReadOk s asks := by
  cases operation <;> trivial

theorem Job.readOk_failed (job : Job) (e : Error) : (job.failed e).ReadOk s asks := by
  unfold Job.failed
  split
  · trivial
  · exact Operation.readOk_failed ..

theorem Job.readOk_published (job : Job) : job.published.ReadOk s asks := by
  unfold Job.published
  split <;> trivial

theorem Job.readOk_staging (job : Job) (staged : Staged) (j : ℕ) :
    (job.staging staged j).ReadOk s asks := by
  unfold Job.staging
  split <;> trivial

theorem Pc.readOk_cleanupGeneration {key : String} {g n : ℕ} {background : Bool} {next : Pc}
    (h : next.ReadOk s asks) :
    (Pc.cleanupGeneration key g n background next).ReadOk s asks := by
  unfold Pc.cleanupGeneration
  split <;> exact h

theorem Pc.readOk_expireGenerationFallback {key : String} {g n : ℕ} {background : Bool}
    {next : Pc} (h : next.ReadOk s asks) :
    (Pc.expireGenerationFallback key g n background next).ReadOk s asks := by
  unfold Pc.expireGenerationFallback
  split <;> exact h

/-- The stored chunk of a published generation is that of its body. -/
theorem Sound.chunk_eq (hs : Sound s) {p : Publication} (hp : p ∈ s.published) {g j : ℕ}
    (hg : p.manifest.generation = some g) (hj : j < chunkCount p.body) {e : Expiring Body}
    (he : s.redis.chunks ⟨p.key, g, j⟩ = some e) : e.value = bodyChunk p.body j := by
  have hv : p.version ∈ (storeView s).published := List.mem_map_of_mem hp
  have hgen : p.version.generation = g := by
    rw [Publication.version, hg]
    rfl
  have hpiece := hs.store.pub_chunk hv (i := j) (e := e) (by rw [hgen]; exact he)
  rw [show p.version.pieces = bodyPieces p.body from rfl, getElem?_bodyPieces hj] at hpiece
  exact (Option.some.inj hpiece).symm

/-- The publication of a stored manifest. -/
theorem Sound.publication (hs : Sound s) {key : String} {m : Manifest} {g : ℕ}
    (hm : s.redis.loadManifest key = some m) (hg : m.generation = some g) :
    ∃ p ∈ s.published, p.key = key ∧ p.manifest = m ∧ ∀ j < m.chunkCount,
      ∃ e, s.redis.chunks ⟨key, g, j⟩ = some e ∧ e.deadline = none := by
  have hactive : (storeView s).active key = some ⟨g, m.chunkCount, m⟩ := by
    obtain ⟨h, hh, rfl⟩ := Option.map_eq_some_iff.mp hm
    change (s.redis.hash key).bind _ = _
    rw [hh, Option.bind_some, Manifest.pointer, hg]
    rfl
  obtain ⟨v, hv, hkey, hptr, hchunks⟩ := hs.store.active hactive
  obtain ⟨p, hp, rfl⟩ := List.mem_map.mp hv
  obtain ⟨hgen, hcount, hinfo⟩ := Pointer.mk.inj hptr
  refine ⟨p, hp, hkey, hinfo, fun j hj => ?_⟩
  have hlt : j < p.version.pieces.length := by
    rw [hcount]
    exact hj
  obtain ⟨e, he, hd⟩ := hchunks j hlt
  rw [hgen] at he
  exact ⟨e, he, hd⟩

theorem Moves.readOk {pc pc' : Pc} (h : Moves s t o pc pc') (hs : Sound s) (hp : pc.plain)
    (hread : pc.ReadOk s t.asks) : pc'.ReadOk s t.asks := by
  cases h with
  | bypass hr => rcases hr with rfl | ⟨_, rfl⟩ <;> trivial
  | @getMissing key caller | @getBodyMissing key m caller => cases caller <;> trivial
  | getLegacy | getBodyFailed | loadOldFill | loadOld => first | exact hread | trivial
  | @getBodyFound key m caller body hb =>
    obtain ⟨e, he, hbody⟩ := Option.bind_eq_some_iff.mp hb
    rw [(hs.noLegacy key e he).1] at hbody
    cases hbody
  | @getChunkNext key m g buffer j caller c hc hj =>
    obtain ⟨hasks, p, hpub, rfl, rfl, hg, rfl, hlt⟩ := hread
    have hcount : p.manifest.chunkCount = chunkCount p.body := (hs.published p hpub).2.1
    have hval := hs.chunk_eq hpub hg (hcount ▸ hlt) (ExpiringMap.lookup_eq_some.mp hc).1
    exact ⟨hasks, p, hpub, rfl, rfl, hg, by rw [chunkPrefix, hval], hj⟩
  | @getChunkDone key m g buffer j caller c hc hj =>
    obtain ⟨hasks, p, hpub, rfl, rfl, hg, rfl, hlt⟩ := hread
    have hcount : p.manifest.chunkCount = chunkCount p.body := (hs.published p hpub).2.1
    have hval := hs.chunk_eq hpub hg (hcount ▸ hlt) (ExpiringMap.lookup_eq_some.mp hc).1
    have hbody : chunkPrefix p.body j ++ c.value = p.body := by
      have hlast : chunkCount p.body = j + 1 := by omega
      calc chunkPrefix p.body j ++ c.value
          _ = chunkPrefix p.body (j + 1) := by rw [hval, chunkPrefix]
          _ = p.body := by rw [← hlast, chunkPrefix_chunkCount]
    rw [hbody]
    cases caller with
    | getOrFetch spec => exact ⟨p.key, hasks, p, hpub, rfl, rfl⟩
    | migrate => exact hp.elim
  | cleanupFailed | expireFailed => split <;> exact hread
  | scheduleFromMeta | unlockFailed => exact hread
  | registerLoadFound => exact hread
  | loadOldFailed | fetchFailed => exact Job.readOk_failed ..
  | writeChunkFailed | swapFailed => exact Pc.readOk_cleanupGeneration (Job.readOk_failed ..)
  | migrateLoadFailed | migrateLoadFound | migrateLoadMissing => exact hp.elim
  | migrateDisabled | duplicateLoadFailed | duplicateLoadNone => exact hp.elim
  | duplicateLoadSome | duplicateDelFailed => exact hp.elim
  | _ => trivial

/-- A section leaves every thread with what it may hand out. -/
theorem Ran.readOk (h : Ran s i t o s') (hi : s.threads[i]? = some t) (hs : Sound s) :
    ∀ u ∈ s'.threads, u.ReadOk s' := by
  have hsub := h.publishes.subset
  have ht : t.pc.ReadOk s t.asks := hs.reads t (List.mem_of_getElem? hi)
  have hp : t.pc.plain := (hs.shape t (List.mem_of_getElem? hi)).plain
  have hold : ∀ u ∈ s.threads, u.ReadOk s' := fun u hu => (hs.reads u hu).mono hsub
  have hset : ∀ {u : Thread Unit}, s'.threads = s.threads.set i u → u.asks = t.asks →
      u.pc.ReadOk s t.asks → ∀ v ∈ s'.threads, v.ReadOk s' := by
    intro u hu hasks hread
    rw [hu]
    refine forall_mem_set hold ?_
    rw [Thread.ReadOk, hasks]
    exact hread.mono hsub
  cases h with
  | move hpc hm =>
    rw [hpc] at ht hp
    exact hset rfl rfl (hm.readOk hs hp ht)
  | @pin key caller m g hpc hmu hm hg =>
    rw [hpc] at ht
    refine hset rfl rfl ⟨ht, ?_⟩
    unfold Manifest.pinned at hg
    split at hg
    · next hpos =>
      obtain ⟨p, hpub, hkey, hman, -⟩ := hs.publication hm hg
      exact ⟨p, hpub, hkey, hman, hg, rfl, hpos⟩
    · cases hg
  | unpin hpc _ =>
    rw [hpc] at ht
    refine hset rfl rfl ?_
    split
    · exact ht
    · exact Pc.readOk_cleanupGeneration ht
  | cleanup hpc _ | expire hpc _ =>
    rw [hpc] at ht
    refine hset rfl rfl ?_
    split <;> exact ht
  | registerHit hpc _ =>
    rw [hpc] at ht
    exact hset rfl rfl ht
  | registerMiss hpc _ =>
    refine forall_mem_append (forall_mem_set hold ?_) ?_
    · trivial
    · trivial
  | schedule hpc _ | register hpc _ | unlock hpc _ =>
    rw [hpc] at ht
    exact hset rfl rfl ht
  | refill | warm | purge | removeLoad | removeDelFailed | removeDelLost | removeEmpty =>
    exact hset rfl rfl trivial
  | acquireFailed => exact hset (State.attempted_setThread ..) rfl (Operation.readOk_failed ..)
  | acquired | removeAcquireFailed | removeAcquired =>
    exact hset (State.attempted_setThread ..) rfl trivial
  | stage => exact hset rfl rfl (Job.readOk_staging ..)
  | writeChunk =>
    refine hset rfl rfl ?_
    split
    · exact Job.readOk_staging ..
    · exact Pc.readOk_cleanupGeneration (Job.readOk_failed ..)
  | swapLost => exact hset rfl rfl (Pc.readOk_cleanupGeneration (Job.readOk_failed ..))
  | swapFirst => exact hset rfl rfl (Job.readOk_published _)
  | swapWaits => exact hset rfl rfl (Pc.readOk_expireGenerationFallback (Job.readOk_published _))
  | swapClears => exact hset rfl rfl (Pc.readOk_cleanupGeneration (Job.readOk_published _))
  | removeWaits => exact hset rfl rfl (Pc.readOk_expireGenerationFallback trivial)
  | removeClears => exact hset rfl rfl (Pc.readOk_cleanupGeneration trivial)
  | migratePublish hpc _ | migrateRegister hpc _ | duplicateForget hpc _ | duplicateDel hpc =>
    rw [hpc] at hp
    exact hp.elim

theorem Call.readOk_entry (call : Call) : call.entry.ReadOk s call.asks := by
  have h := call.enters
  generalize call.entry = pc at h
  cases h with
  | done hr => rcases hr with rfl | ⟨_, rfl⟩ <;> trivial
  | get => rfl
  | _ => trivial

end Readers

theorem Steps.sound {a : Action Unit} (h : Steps s a s') (ha : a.atomic) (hs : Sound s) :
    Sound s' := by
  have hstore : GenerationStore.Inv (storeView s') := by
    rcases h.view ha hs.shape hs.localOk with heq | ⟨l, hstep, -⟩
    · rw [heq]
      exact hs.store
    · exact hs.store.step hstep
  have hpub : Publishes s s' := by
    cases h with
    | run _ h => exact h.publishes
    | _ => exact .same rfl rfl
  refine ⟨h.shape ha.1 hs.shape, h.local hs.shape hs.localOk, hstore,
    hpub.ok hs.published, hpub.noLegacy hs.noLegacy, ?_⟩
  have hold : ∀ u ∈ s.threads, u.ReadOk s' := fun u hu => (hs.reads u hu).mono hpub.subset
  cases h with
  | @start p call deadline =>
    exact forall_mem_append hold (Call.readOk_entry call)
  | run hi h => exact h.readOk hi hs
  | fire => exact forall_mem_append hold trivial
  | @release i t r hit key g hi hpc hl =>
    have ht := hold t (List.mem_of_getElem? hi)
    rw [Thread.ReadOk, hpc] at ht
    exact forall_mem_set hold ht
  | releaseAgain => exact hold
  | @cancel i t hi hc =>
    have ht := hold t (List.mem_of_getElem? hi)
    exact forall_mem_set hold ht
  | tick => exact hold
  | restart =>
    intro u hu
    obtain ⟨j, hj⟩ := List.mem_iff_getElem?.mp hu
    obtain ⟨v, -, rfl⟩ := stepRestart_thread hj
    trivial

theorem init_sound : Sound (init : State Unit) where
  shape := init_shape
  localOk i t h := by cases h
  store := GenerationStore.Inv.empty 0 1
  published p hp := by cases hp
  noLegacy key h he := by cases he
  reads t ht := by cases ht

/-- Every reachable state is sound. -/
theorem sound_of_run {s : State Unit} (h : Run step (fun _ a => a.atomic) init s) : Sound s :=
  h.invariant (I := Sound) (fun _ _ _ hs ha hstep => (Steps.of_step hstep).sound ha hs) init_sound

end Steps

/-! ## What the entries say -/

/-- The stored chunks of a generation, one after the other. -/
def Redis.storedBody (r : Redis) (key : String) (g : ℕ) : ℕ → Body
  | 0 => []
  | n + 1 => r.storedBody key g n ++ ((r.chunks ⟨key, g, n⟩).map Expiring.value).getD []

theorem Redis.storedBody_eq_chunkPrefix {r : Redis} {key : String} {g n : ℕ} {body : Body}
    (h : ∀ j < n, ∃ e, r.chunks ⟨key, g, j⟩ = some e ∧ e.value = bodyChunk body j) :
    r.storedBody key g n = chunkPrefix body n := by
  induction n with
  | zero => rfl
  | succ n ih =>
    obtain ⟨e, he, hvalue⟩ := h n (Nat.lt_succ_self n)
    rw [Redis.storedBody, chunkPrefix, ih fun j hj => h j (Nat.lt_succ_of_lt hj), he,
      Option.map_some, Option.getD_some, hvalue]

theorem Sound.storedBody_eq {s : State Unit} (hs : Sound s) {p : Publication}
    (hp : p ∈ s.published) {g : ℕ} (hg : p.manifest.generation = some g)
    (hchunks : ∀ j < p.manifest.chunkCount, ∃ e, s.redis.chunks ⟨p.key, g, j⟩ = some e ∧
      e.deadline = none) {n : ℕ} (hn : n ≤ p.manifest.chunkCount) :
    s.redis.storedBody p.key g n = chunkPrefix p.body n := by
  have hcount := (hs.published p hp).2.1
  refine Redis.storedBody_eq_chunkPrefix fun j hj => ?_
  obtain ⟨e, he, -⟩ := hchunks j (by omega)
  exact ⟨e, he, hs.chunk_eq hp hg (by omega) he⟩

/-- A generation was published once. -/
theorem Sound.publication_unique {s : State Unit} (hs : Sound s) {p q : Publication}
    (hp : p ∈ s.published) (hq : q ∈ s.published)
    (heq : q.manifest.generation = p.manifest.generation) : q.key = p.key ∧ q.body = p.body := by
  have hversion : q.version = p.version :=
    hs.store.pub_inj (List.mem_map_of_mem hq) (List.mem_map_of_mem hp)
      (by rw [Publication.version, Publication.version, heq])
  obtain ⟨hkey, -, hpieces, -⟩ := Version.mk.inj hversion
  refine ⟨hkey, ?_⟩
  have hflat : ∀ b : Body, (bodyPieces b).flatten = b := by
    intro b
    have hprefix : ∀ n, ((List.range n).map (bodyChunk b)).flatten = chunkPrefix b n := by
      intro n
      induction n with
      | zero => rfl
      | succ n ih => simp [List.range_succ, ih, chunkPrefix]
    rw [bodyPieces, hprefix, chunkPrefix_chunkCount]
  rw [← hflat q.body, hpieces, hflat]

/-- **Entries are whole.** For every run of a single manager in which a command that returns an
error had no effect: a manifest names chunks that are all stored without an expiry and that make
up the body of the publication that wrote it, of the length the manifest states; and a hit is
status, content type, item count and bytes of one publication of the key that was asked for. -/
theorem entries_are_whole {s : State Unit} (h : Run step (fun _ a => a.atomic) init s) :
    (∀ (key : String) (m : Manifest) (g : ℕ), s.redis.loadManifest key = some m →
      m.generation = some g → ∃ p ∈ s.published, p.key = key ∧ p.manifest = m ∧
        (∀ q ∈ s.published, q.manifest = m → q.key = key ∧ q.body = p.body) ∧
        (∀ j < m.chunkCount, ∃ e, s.redis.chunks ⟨key, g, j⟩ = some e ∧ e.deadline = none) ∧
        s.redis.storedBody key g m.chunkCount = p.body ∧ m.info.sizeBytes = p.body.length) ∧
    ∀ t ∈ s.threads, ∀ r, t.pc = .returned (.response r true) →
      ∃ spec, t.call = some (.getOrFetch spec) ∧
        ∃ p ∈ s.published, p.key = spec.normalized.key ∧ r = p.manifest.response p.body := by
  have hs := sound_of_run h
  constructor
  · intro key m g hm hg
    obtain ⟨p, hp, rfl, rfl, hchunks⟩ := hs.publication hm hg
    have hok := hs.published p hp
    refine ⟨p, hp, rfl, rfl, fun q hq hqm => hs.publication_unique hp hq (by rw [hqm]), hchunks,
      ?_, hok.2.2⟩
    rw [hs.storedBody_eq hp hg hchunks (Nat.le_refl _), hok.2.1, chunkPrefix_chunkCount]
  · intro t ht r hpc
    have hread : t.pc.ReadOk s t.asks := hs.reads t ht
    rw [hpc] at hread
    obtain ⟨key, hasks, p, hp, hkey, hr⟩ := hread
    obtain ⟨call, hcall, hkey'⟩ := Option.bind_eq_some_iff.mp hasks
    cases call with
    | getOrFetch spec =>
      obtain rfl := Option.some.inj hkey'
      exact ⟨spec, hcall, p, hp, hkey, hr⟩
    | _ => cases hkey'


/-- `Warm` publishes, and a later `GetOrFetch` is a hit. -/
def warmThenHit : List (Action Unit) :=
  [.start () (.warm sampleSpec) none, .run 0 .ok none, .run 0 .ok none, .run 0 .ok none,
    .run 0 .ok (some sampleResponse), .run 0 .ok none, .run 0 .ok none, .run 0 .ok none,
    .run 0 .ok none, .run 0 .ok none, .start () (.getOrFetch sampleSpec) none, .run 1 .ok none,
    .run 1 .ok none, .run 1 .ok none, .run 1 .ok none, .run 1 .ok none]

theorem atomic_warmThenHit : ∀ a ∈ warmThenHit, ∀ _ : State Unit, a.atomic := by
  simp [warmThenHit, Action.atomic, Action.plain, Call.plain]

/-- The response `Warm` has fetched is what the client gets. -/
theorem entries_are_whole_sample :
    ∃ s : State Unit, Run step (fun _ a => a.atomic) init s ∧
      ∃ p ∈ s.published, p.key = sampleSpec.key ∧
        sampleResponse = p.manifest.response p.body := by
  have h : (exec step (init : State Unit) warmThenHit).map (fun s => s.threads[1]?.map fun t =>
      (t.call, t.pc)) =
      some (some (some (.getOrFetch sampleSpec), .returned (.response sampleResponse true))) := by
    decide +kernel
  obtain ⟨s, hrun, hobs⟩ := Run.of_eval atomic_warmThenHit h
  obtain ⟨t, ht, hpc⟩ := Option.map_eq_some_iff.mp hobs
  obtain ⟨hcall, hpc⟩ := Prod.mk.inj hpc
  obtain ⟨spec, hspec, p, hp, hkey, hr⟩ :=
    (entries_are_whole hrun).2 t (List.mem_of_getElem? ht) _ hpc
  rw [hcall] at hspec
  obtain rfl : sampleSpec = spec := by injection Option.some.inj hspec
  exact ⟨s, hrun, p, hp, hkey, hr⟩

end IptvProxy.Cache
