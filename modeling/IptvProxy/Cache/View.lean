import IptvProxy.Lib.GenerationInvariant
import IptvProxy.Cache.Shape

/-!
# One manager as a store of generations

`storeView` reads the state of a single process as a `GenerationStore`: a manifest that names a
generation is a pointer, an operation in flight is an agent. Every step of the cache is then a
step of the store or invisible (`Steps.view`), as long as a command that returns an error had no
effect and nobody migrates; the invariants of the store hold of the cache.

Two sections of the source need an argument of their own: `writeGeneration` stays within the body,
and `Remove` keeps `mu` from its `loadManifest` to its `DEL`, so the manifest it has read is the
one it deletes (`Window`).
-/

namespace IptvProxy.Cache

open Agents GenerationStore

/-! ## The view -/

/-- The pointer a manifest is. -/
def Manifest.pointer (m : Manifest) : Option (Pointer Manifest) :=
  m.generation.map fun g => ⟨g, m.chunkCount, m⟩

/-- All chunks of a body. -/
def bodyPieces (body : Body) : List Body := (List.range (chunkCount body)).map (bodyChunk body)

/-- The version a publish script published. -/
def Publication.version (p : Publication) : Version String Body Manifest :=
  ⟨p.key, p.manifest.generation.getD 0, bodyPieces p.body, p.manifest⟩

/-- The pointer a replacement has read. -/
def Job.pointer (job : Job) : Option (Pointer Manifest) := job.old.bind Manifest.pointer

/-- A generation that waits for its readers, without the descriptor. -/
def RetiredGeneration.entry (r : RetiredGeneration) : Retired String :=
  ⟨r.key, r.generation, r.chunkCount⟩

/-- A replacement that has staged `j` chunks. -/
def Job.stagingRole (job : Job) (staged : Staged) (j : ℕ) : Role String Body Manifest :=
  .staging job.spec.key job.pointer staged.generation (bodyPieces staged.response.body) j

/-- What an operation does to the generations. -/
def Pc.role : Pc → Role String Body Manifest
  | .fetch job => .holding job.spec.key job.pointer
  | .writeChunk job staged j => job.stagingRole staged j
  | .stamp job staged => job.stagingRole staged (bodyPieces staged.response.body).length
  | .swap job staged _ => job.stagingRole staged (bodyPieces staged.response.body).length
  | .cleanup key g n j _ _ => .cleaning key g n j
  | .expire key g n j _ _ => .expiring key g n j
  | _ => .idle

/-- An operation as an agent. -/
def Thread.agent (t : Thread Unit) : Agent String Body Manifest := ⟨t.lease, t.pc.role⟩

/-- The state of a single manager as a store. -/
def storeView (s : State Unit) : Store String Body Manifest where
  now := s.now
  active key := (s.redis.hash key).bind fun h => h.manifest.pointer
  chunks := s.redis.chunks
  readers := (s.mgr ()).readers
  retired l := ((s.mgr ()).retired l).map RetiredGeneration.entry
  agents := s.threads.map Thread.agent
  nextID := s.nextID
  published := s.published.map Publication.version

@[simp] theorem length_bodyPieces (body : Body) : (bodyPieces body).length = chunkCount body := by
  simp [bodyPieces]

theorem getElem?_bodyPieces {body : Body} {j : ℕ} (h : j < chunkCount body) :
    (bodyPieces body)[j]? = some (bodyChunk body j) := by
  simp [bodyPieces, h]

theorem Manifest.retired_pointer (m : Manifest) (key : String) :
    (m.pointer.bind fun p => p.retired key) =
      m.pinned.map fun g => ⟨key, g, m.chunkCount⟩ := by
  unfold pointer pinned
  rcases m.generation with _ | g
  · split <;> rfl
  · simp only [Option.map_some, Option.bind_some, Pointer.retired]
    split <;> rfl

/-! ## Roles -/

theorem Pc.role_of_settled {pc : Pc} (h : pc.settled) : pc.role = .idle := by
  cases pc with
  | returned | schedule | unlock => rfl
  | _ => exact h.elim

theorem Pc.role_of_final {pc : Pc} (h : pc.final) : pc.role = .idle :=
  role_of_settled (settled_of_final h)

theorem Pc.role_cleanupGeneration {key : String} {g n : ℕ} {background : Bool} {next : Pc}
    (h : next.settled) :
    (Pc.cleanupGeneration key g n background next).role = Role.clean key g n := by
  unfold Pc.cleanupGeneration Role.clean
  split
  · rfl
  · exact role_of_settled h

theorem Pc.role_expireGenerationFallback {key : String} {g n : ℕ} {background : Bool} {next : Pc}
    (h : next.settled) :
    (Pc.expireGenerationFallback key g n background next).role = Role.expire key g n := by
  unfold Pc.expireGenerationFallback Role.expire
  split
  · rfl
  · exact role_of_settled h

theorem Job.role_staging (job : Job) (staged : Staged) {j : ℕ}
    (h : j ≤ chunkCount staged.response.body) :
    (job.staging staged j).role = job.stagingRole staged j := by
  unfold Job.staging
  split
  · rfl
  · next hlt =>
    have hj : j = (bodyPieces staged.response.body).length := by
      rw [length_bodyPieces]
      omega
    rw [hj]
    rfl

theorem GetCaller.role_found (caller : GetCaller) (key : String) (m : Manifest) (r : Response) :
    (caller.found key m r).role = .idle := by
  cases caller <;> rfl

theorem GetCaller.role_notFound (caller : GetCaller) : caller.notFound.role = .idle := by
  cases caller <;> rfl

/-! ## The view after an update -/

section Update

variable {s : State Unit} {i : ℕ} {t : Thread Unit}

theorem storeView_agents (hi : s.threads[i]? = some t) :
    (storeView s).agents[i]? = some ⟨t.lease, t.pc.role⟩ := by
  change (s.threads.map Thread.agent)[i]? = _
  rw [List.getElem?_map, hi]
  rfl

theorem storeView_setThread (s : State Unit) (i : ℕ) (t : Thread Unit) :
    storeView (s.setThread i t) = (storeView s).setAgent i t.agent := by
  simp only [storeView, State.setThread, Store.setAgent, List.map_set]

theorem storeView_goto (s : State Unit) (i : ℕ) (t : Thread Unit) (pc : Pc) :
    storeView (s.goto i t pc) = (storeView s).setRole i t.lease pc.role :=
  storeView_setThread ..

/-- A thread that goes on in the same role. -/
theorem storeView_same (hi : s.threads[i]? = some t) {t' : Thread Unit}
    (h : t'.agent = t.agent) : storeView (s.setThread i t') = storeView s := by
  rw [storeView_setThread, h, Store.setAgent,
    set_of_getElem? (show (storeView s).agents[i]? = some t.agent from storeView_agents hi)]

theorem storeView_setMgr (s : State Unit) (p : Unit) (m : Manager) :
    storeView (s.setMgr p m) =
      { storeView s with
        readers := m.readers
        retired := fun l => (m.retired l).map RetiredGeneration.entry } := by
  have hm : (s.setMgr p m).mgr () = m := by
    cases p
    exact Function.update_self () m s.mgr
  unfold storeView
  rw [hm]
  rfl

/-- Memory that differs in other fields. -/
theorem storeView_setMgr_same {m : Manager} {p : Unit} (hr : m.readers = (s.mgr ()).readers)
    (hret : m.retired = (s.mgr ()).retired) : storeView (s.setMgr p m) = storeView s := by
  rw [storeView_setMgr, hr, hret]
  rfl

theorem storeView_attempted (s : State Unit) (key : String) (applied : Bool) :
    storeView (s.attempted key applied) =
      { storeView s with nextID := (storeView s).nextID + 1 } := by
  cases applied <;> rfl

theorem storeView_spawn (s : State Unit) (t : Thread Unit) (hl : t.lease = none)
    (hr : t.pc.role = .idle) :
    storeView (s.spawn t) =
      { storeView s with agents := (storeView s).agents ++ [⟨none, .idle⟩] } := by
  have ha : t.agent = ⟨none, .idle⟩ := by rw [Thread.agent, hl, hr]
  simp only [storeView, State.spawn, List.map_append, List.map_cons, List.map_nil, ha]

theorem storeView_setHash (s : State Unit) (key : String) (h : Option Hash) :
    storeView (s.setHash key h) =
      { storeView s with
        active := Function.update (storeView s).active key
          (h.bind fun h => h.manifest.pointer) } := by
  have hactive : (fun k => (Function.update s.redis.hash key h k).bind fun h => h.manifest.pointer) =
      Function.update (storeView s).active key (h.bind fun h => h.manifest.pointer) := by
    funext k
    by_cases hk : k = key
    · subst hk
      rw [Function.update_self, Function.update_self]
    · rw [Function.update_of_ne hk, Function.update_of_ne hk]
      rfl
  simp only [storeView, State.setHash]
  rw [hactive]
  rfl

theorem persistChunks_eq (c : ExpiringMap ChunkKey Body) (now : ℕ) (key : String) (g n : ℕ) :
    persistChunks c now key g n = Store.persistAll c now key g n := by
  induction n with
  | zero => rfl
  | succ n ih => rw [persistChunks, Store.persistAll, ih]

theorem has_of_stagedChunksExist {c : ExpiringMap ChunkKey Body} {now : ℕ} {key : String}
    {g n j : ℕ} (h : stagedChunksExist c now key g n = true) (hj : j < n) :
    c.has now ⟨key, g, j⟩ = true := by
  induction n with
  | zero => exact absurd hj (Nat.not_lt_zero j)
  | succ n ih =>
    rw [stagedChunksExist, Bool.and_eq_true] at h
    rcases Nat.lt_succ_iff_lt_or_eq.mp hj with hlt | rfl
    · exact ih h.1 hlt
    · exact h.2

/-- What the publish script does is what the store calls publishing. -/
theorem storeView_publish (s : State Unit) (job : Job) (staged : Staged) (fetchedAt : ℕ) :
    storeView (publishGenerationScript s job staged fetchedAt) =
      (storeView s).publish ⟨job.spec.key, staged.generation, bodyPieces staged.response.body,
        job.manifest staged fetchedAt⟩ := by
  have hhash := storeView_setHash
    (s.setChunks (persistChunks s.redis.chunks s.now job.spec.key staged.generation
      (chunkCount staged.response.body))) job.spec.key (some ⟨job.manifest staged fetchedAt, none⟩)
  rw [Store.publish]
  have hstate : storeView (publishGenerationScript s job staged fetchedAt) =
      { storeView ((s.setChunks (persistChunks s.redis.chunks s.now job.spec.key staged.generation
          (chunkCount staged.response.body))).setHash job.spec.key
          (some ⟨job.manifest staged fetchedAt, none⟩)) with
        published := ⟨job.spec.key, staged.generation, bodyPieces staged.response.body,
          job.manifest staged fetchedAt⟩ :: (storeView s).published } := rfl
  rw [hstate, hhash, persistChunks_eq, ← length_bodyPieces]
  simp [storeView, State.setChunks, Manifest.pointer, Job.manifest, Version.pointer]

/-- The generation a replacement takes out of use. -/
theorem Job.retires_eq (job : Job) (g : ℕ) :
    (job.retires g).map RetiredGeneration.entry =
      Store.replaced job.spec.key job.pointer g := by
  unfold Job.retires Store.replaced Job.pointer Manifest.pointer
  rcases job.old with _ | m
  · rfl
  · rcases hg : m.generation with _ | old
    · simp [Manifest.pinned, hg]
    · by_cases hpos : 0 < m.chunkCount
      · by_cases heq : old = g
        · simp [Manifest.pinned, hg, hpos, heq]
        · simp [Manifest.pinned, hg, hpos, heq, Pointer.retired, RetiredGeneration.entry]
      · simp [Manifest.pinned, hg, hpos, Pointer.retired]

/-- The generation `Remove` takes out of use. -/
theorem removeRetires_eq (s : State Unit) (key : String) :
    (removeRetires key (s.redis.loadManifest key)).map RetiredGeneration.entry =
      ((storeView s).active key).bind fun p => p.retired key := by
  change _ = ((s.redis.hash key).bind fun h => h.manifest.pointer).bind fun p => p.retired key
  unfold removeRetires Redis.loadManifest
  rcases s.redis.hash key with _ | h
  · rfl
  · simp only [Option.map_some, Option.bind_eq_bind, Option.bind_some, Manifest.retired_pointer]
    rcases h.manifest.pinned with _ | g <;> rfl

end Update

end IptvProxy.Cache
