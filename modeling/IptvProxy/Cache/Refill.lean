import IptvProxy.Cache.Failure
import IptvProxy.Cache.Leases

/-!
# Misses and refills

`get` finds an entry if its manifest names chunks or has an inline body, `refillMissing` if there
is a manifest. The two agree as long as no empty body is published (`misses_are_refillable`): the
manifest of an empty body names no chunks, and the publish script has removed the inline body. Then
every request is a miss, and its refill finds the manifest and stops (`empty_body_unavailable`).
-/

namespace IptvProxy.Cache

open Agents GenerationStore Transition

variable {s s' : State Unit} {i : ℕ} {t : Thread Unit} {o : Outcome} {key : String}

/-- The publication is the last one of its key, and the entry has not been removed since. -/
def State.Latest (s : State Unit) (key : String) (p : Publication) : Prop :=
  s.published.find? (fun q => q.key = key) = some p ∧ (s.redis.hash key).isSome = true

/-- The next section of thread `i` makes a miss out of its request for this key. -/
def State.Misses (s : State Unit) (i : ℕ) (key : String) : Prop :=
  ∃ t spec, s.threads[i]? = some t ∧ (t.pc = .get key (.getOrFetch spec) ∨
      ∃ m, t.pc = .getBody key m (.getOrFetch spec)) ∧
    ∃ s₁ u, step s (.run i .ok none) = some s₁ ∧ s₁.threads[i]? = some u ∧
      u.pc = .getRegister spec none

/-- Redis executes every command, and nobody migrates. -/
def Action.sound (a : Action Unit) : Prop := a.plain ∧ a.faultless

/-- No entry is unavailable for good. -/
structure State.Refillable (s : State Unit) : Prop where
  /-- a request for an entry gets the response that was published last -/
  hit : ∀ key p, s.Latest key p → (s.mgr ()).mu = none → ∀ spec : Spec,
    spec.normalized.key = key → 0 < spec.normalized.ttl → validateSpec spec.normalized = none →
    ∃ s₁ s' t, step s (.start () (.getOrFetch spec) none) = some s₁ ∧
      Run step (fun _ a => a = .run s.threads.length .ok none) s₁ s' ∧
      s'.threads[s.threads.length]? = some t ∧ t.call = some (.getOrFetch spec) ∧
      t.pc = .returned (.response (p.manifest.response p.body) true)
  /-- a refill that has the lock while the entry is as it was at the miss calls `Fetch` -/
  refill : ∀ i key, s.Misses i key → ∀ s₁ s', step s (.run i .ok none) = some s₁ →
    Run step (fun _ a => a.sound) s₁ s' → ∀ k t job, s'.threads[k]? = some t →
    t.pc = .loadOld job → job.operation = .fill → job.spec.key = key →
    s'.redis.hash key = s.redis.hash key →
    ∃ s'' u, step s' (.run k .ok none) = some s'' ∧ s''.threads[k]? = some u ∧
      ∃ job, u.pc = .fetch job

/-- A response that is published has a body. -/
def Action.publishesBody (s : State Unit) : Action Unit → Prop
  | .run i _ _ => ∀ t job staged fetchedAt, s.threads[i]? = some t →
      t.pc = .swap job staged fetchedAt → staged.response.body ≠ []
  | _ => True

/-! ## What is stored -/

/-- Every entry is the last publication of its key. -/
def State.Newest (s : State Unit) : Prop :=
  ∀ key h, s.redis.hash key = some h →
    ∃ p, s.published.find? (fun q => q.key = key) = some p ∧ h = ⟨p.manifest, none⟩

/-- Every entry names chunks. -/
def State.Full (s : State Unit) : Prop :=
  ∀ key h, s.redis.hash key = some h → ∃ g, h.manifest.pinned = some g

theorem Publishes.newest (h : Publishes s s') (hs : s.Newest) : s'.Newest := by
  intro key e he
  cases h with
  | same hhash hpub =>
    rw [hpub]
    exact hs key e (hhash ▸ he)
  | deleted k hhash hpub =>
    rw [hhash] at he
    rw [hpub]
    by_cases hk : key = k
    · rw [hk, Function.update_self] at he
      cases he
    · rw [Function.update_of_ne hk] at he
      exact hs key e he
  | swapped job staged fetchedAt hhash hpub =>
    rw [hhash] at he
    rw [hpub]
    by_cases hk : key = job.spec.key
    · rw [hk, Function.update_self] at he
      obtain rfl := Option.some.inj he
      exact ⟨_, List.find?_cons_of_pos (decide_eq_true hk.symm), rfl⟩
    · rw [Function.update_of_ne hk] at he
      obtain ⟨p, hp, rfl⟩ := hs key e he
      refine ⟨p, ?_, rfl⟩
      rw [List.find?_cons_of_neg (by rw [decide_eq_true_eq]; exact Ne.symm hk)]
      exact hp

theorem Ran.full (h : Ran s i t o s')
    (hbody : ∀ job staged fetchedAt, t.pc = .swap job staged fetchedAt →
      staged.response.body ≠ []) (hs : s.Full) : s'.Full := by
  intro key e he
  rcases h.hash with hhash | ⟨job, staged, fetchedAt, hpc, -, -, hhash⟩ | ⟨k, -, hhash⟩
  · exact hs key e (hhash ▸ he)
  · rw [hhash] at he
    by_cases hk : key = job.spec.key
    · rw [hk, Function.update_self] at he
      obtain rfl := Option.some.inj he
      exact ⟨staged.generation, if_pos (chunkCount_pos (hbody _ _ _ hpc))⟩
    · rw [Function.update_of_ne hk] at he
      exact hs key e he
  · rw [hhash] at he
    by_cases hk : key = k
    · rw [hk, Function.update_self] at he
      cases he
    · rw [Function.update_of_ne hk] at he
      exact hs key e he

/-! ## No inline bodies -/

/-- `get` looks for an inline body. -/
def Pc.inBody : Pc → Bool
  | .getBody _ _ _ => true
  | _ => false

theorem Pc.inBody_of_settled {pc : Pc} (h : pc.settled) : pc.inBody = false := by
  cases pc with
  | returned | schedule | unlock => rfl
  | _ => exact h.elim

theorem Pc.inBody_cleanupGeneration {g n : ℕ} {background : Bool} {next : Pc}
    (h : next.settled) : (Pc.cleanupGeneration key g n background next).inBody = false := by
  unfold Pc.cleanupGeneration
  split
  · rfl
  · exact inBody_of_settled h

theorem Pc.inBody_expireGenerationFallback {g n : ℕ} {background : Bool} {next : Pc}
    (h : next.settled) : (Pc.expireGenerationFallback key g n background next).inBody = false := by
  unfold Pc.expireGenerationFallback
  split
  · rfl
  · exact inBody_of_settled h

theorem Job.inBody_staging (job : Job) (staged : Staged) (j : ℕ) :
    (job.staging staged j).inBody = false := by
  unfold Job.staging
  split <;> rfl

theorem Call.inBody_entry (call : Call) : call.entry.inBody = false := by
  have h := call.enters
  generalize call.entry = pc at h
  cases h <;> rfl

theorem Moves.inBody {pc pc' : Pc} (h : Moves s t o pc pc') (hs : s.Full) (hp : pc.plain) :
    pc'.inBody = false := by
  cases h with
  | @getMissing key caller | @getBodyMissing key m caller => cases caller <;> rfl
  | getLegacy hm hnone =>
    obtain ⟨e, he, rfl⟩ := Option.map_eq_some_iff.mp hm
    obtain ⟨g, hg⟩ := hs _ e he
    rw [hg] at hnone
    cases hnone
  | @getBodyFound key m caller | @getChunkDone key m g buffer j caller => cases caller <;> rfl
  | cleanupFailed | expireFailed =>
    split
    · rfl
    · exact Pc.inBody_of_settled hp
  | loadOldFailed | fetchFailed => exact Pc.inBody_of_settled (Job.settled_failed _ _)
  | writeChunkFailed | swapFailed => exact Pc.inBody_cleanupGeneration (Job.settled_failed _ _)
  | unlockFailed => exact Pc.inBody_of_settled (Pc.settled_of_final hp)
  | migrateLoadFailed | migrateLoadFound | migrateLoadMissing => exact hp.elim
  | migrateDisabled | duplicateLoadFailed | duplicateLoadNone => exact hp.elim
  | duplicateLoadSome | duplicateDelFailed => exact hp.elim
  | _ => rfl

/-- No thread looks for an inline body. -/
def State.NoBody (s : State Unit) : Prop := ∀ t ∈ s.threads, t.pc.inBody = false

theorem Ran.noBody (h : Ran s i t o s') (hs : s.Full) (hp : t.pc.plain)
    (hall : s.NoBody) : s'.NoBody := by
  have hset : ∀ {u : Thread Unit}, s'.threads = s.threads.set i u → u.pc.inBody = false →
      s'.NoBody := by
    intro u hu hpc
    rw [State.NoBody, hu]
    exact forall_mem_set hall hpc
  cases h with
  | move hpc hm =>
    rw [hpc] at hp
    exact hset rfl (hm.inBody hs hp)
  | unpin hpc _ =>
    rw [hpc] at hp
    refine hset rfl ?_
    dsimp only
    split
    · exact Pc.inBody_of_settled (Pc.settled_of_final hp)
    · exact Pc.inBody_cleanupGeneration (Pc.settled_of_final hp)
  | cleanup hpc _ | expire hpc _ =>
    rw [hpc] at hp
    refine hset rfl ?_
    dsimp only
    split
    · rfl
    · exact Pc.inBody_of_settled hp
  | registerMiss => exact forall_mem_append (forall_mem_set hall rfl) rfl
  | schedule hpc _ =>
    rw [hpc] at hp
    exact hset rfl (Pc.inBody_of_settled hp)
  | acquireFailed =>
    exact hset (State.attempted_setThread ..)
      (Pc.inBody_of_settled (Pc.settled_of_final (Operation.final_failed ..)))
  | acquired | removeAcquireFailed | removeAcquired =>
    exact hset (State.attempted_setThread ..) rfl
  | stage => exact hset rfl (Job.inBody_staging ..)
  | writeChunk =>
    refine hset rfl ?_
    dsimp only
    split
    · exact Job.inBody_staging ..
    · exact Pc.inBody_cleanupGeneration (Job.settled_failed _ _)
  | swapLost => exact hset rfl (Pc.inBody_cleanupGeneration (Job.settled_failed _ _))
  | swapFirst hpc =>
    rw [hpc] at hp
    exact hset rfl (Pc.inBody_of_settled (Job.settled_published hp))
  | swapWaits hpc =>
    rw [hpc] at hp
    exact hset rfl (Pc.inBody_expireGenerationFallback (Job.settled_published hp))
  | swapClears hpc =>
    rw [hpc] at hp
    exact hset rfl (Pc.inBody_cleanupGeneration (Job.settled_published hp))
  | unlock hpc _ =>
    rw [hpc] at hp
    exact hset rfl (Pc.inBody_of_settled (Pc.settled_of_final hp))
  | removeWaits => exact hset rfl (Pc.inBody_expireGenerationFallback Pc.settled_unlock)
  | removeClears => exact hset rfl (Pc.inBody_cleanupGeneration Pc.settled_unlock)
  | migratePublish hpc _ | migrateRegister hpc _ | duplicateForget hpc _ | duplicateDel hpc =>
    rw [hpc] at hp
    exact hp.elim
  | _ => exact hset rfl rfl

/-! ## Runs without empty bodies -/

/-- What holds in every state of a run that publishes no empty body. -/
structure State.Stocked (s : State Unit) : Prop where
  /-- it is sound -/
  sound : Sound s
  /-- every entry is the last publication of its key -/
  newest : s.Newest
  /-- every entry names chunks -/
  full : s.Full
  /-- no thread looks for an inline body -/
  noBody : s.NoBody

theorem Action.sound.atomic {a : Action Unit} (h : a.sound) : a.atomic := by
  refine ⟨h.1, fun i o fetched ha => ?_⟩
  rw [h.2 i o fetched ha]
  decide

theorem Steps.stocked {a : Action Unit} (h : Steps s a s') (ha : a.sound)
    (hbody : a.publishesBody s) (hs : s.Stocked) : s'.Stocked := by
  refine ⟨h.sound ha.atomic hs.sound, ?_, ?_, ?_⟩
  · cases h with
    | run hi h => exact h.publishes.newest hs.newest
    | _ => exact hs.newest
  · cases h with
    | run hi h => exact h.full (fun job staged fetchedAt => hbody _ job staged fetchedAt hi) hs.full
    | _ => exact hs.full
  · cases h with
    | start => exact forall_mem_append hs.noBody (Call.inBody_entry _)
    | run hi h => exact h.noBody hs.full (hs.sound.shape _ (List.mem_of_getElem? hi)).plain hs.noBody
    | fire => exact forall_mem_append hs.noBody rfl
    | release => exact forall_mem_set hs.noBody rfl
    | releaseAgain | tick => exact hs.noBody
    | @cancel i t hi _ =>
      have hpc := hs.noBody t (List.mem_of_getElem? hi)
      exact forall_mem_set hs.noBody hpc
    | restart =>
      intro u hu
      obtain ⟨j, hj⟩ := List.mem_iff_getElem?.mp hu
      obtain ⟨v, -, rfl⟩ := stepRestart_thread hj
      rfl

/-- A request misses only what has no manifest. -/
theorem State.Stocked.missing (hs : s.Stocked) (h : s.Misses i key) : s.redis.hash key = none := by
  obtain ⟨t, spec, hi, hpc, s₁, u, hstep, hu, hupc⟩ := h
  rcases hpc with hpc | ⟨m, hpc⟩
  swap
  · have hfalse := hs.noBody t (List.mem_of_getElem? hi)
    rw [hpc] at hfalse
    cases hfalse
  rw [step, hi] at hstep
  dsimp only at hstep
  rw [stepThread, hpc] at hstep
  dsimp only at hstep
  rw [stepGet, State.locked] at hstep
  split at hstep
  swap
  · cases hstep
  obtain rfl := Option.some.inj hstep
  have hself : ∀ {pc : Pc}, (s.goto i t pc).threads[i]? = some u → u.pc = pc := by
    intro pc hu
    rw [State.goto, State.setThread, getElem?_set_of_some hi] at hu
    rw [← Option.some.inj hu]
  split at hu
  · rw [hself hu] at hupc
    cases hupc
  cases hm : s.redis.loadManifest key with
  | none => exact Option.map_eq_none_iff.mp hm
  | some m =>
    obtain ⟨e, he, rfl⟩ := Option.map_eq_some_iff.mp hm
    obtain ⟨g, hg⟩ := hs.full key e he
    rw [hm] at hu
    dsimp only at hu
    rw [hg] at hu
    dsimp only at hu
    rw [State.setThread, State.setMgr, getElem?_set_of_some hi] at hu
    rw [← Option.some.inj hu] at hupc
    cases hupc

/-- A refill that finds no manifest calls `Fetch`. -/
theorem fetch_of_missing {k : ℕ} {job : Job} (hk : s.threads[k]? = some t)
    (hpc : t.pc = .loadOld job) (hop : job.operation = .fill)
    (hnone : s.redis.hash job.spec.key = none) :
    ∃ s'' u, step s (.run k .ok none) = some s'' ∧ s''.threads[k]? = some u ∧
      ∃ job, u.pc = .fetch job := by
  have hload : s.redis.loadManifest job.spec.key = none := by
    rw [Redis.loadManifest, hnone]
    rfl
  refine ⟨s.goto k t (.fetch { job with old := none }), _, ?_, getElem?_set_of_some hk, _, rfl⟩
  rw [step, hk]
  dsimp only
  rw [stepThread, hpc]
  dsimp only
  rw [stepLoadOld, hop, hload, Option.isSome_none, Bool.and_false]
  rfl

theorem State.Stocked.refillable (hs : s.Stocked) : s.Refillable where
  hit key p hlatest hmu spec hkey httl hvalid := by
    obtain ⟨e, he⟩ := Option.isSome_iff_exists.mp hlatest.2
    obtain ⟨q, hq, rfl⟩ := hs.newest key e he
    obtain rfl := Option.some.inj (hlatest.1.symm.trans hq)
    obtain ⟨g, hg⟩ := hs.full key _ he
    have hm : s.redis.loadManifest key = some p.manifest := by
      rw [Redis.loadManifest, he]
      rfl
    obtain ⟨m, g', hm', hg', hchunks⟩ := hs.sound.servable ⟨p.manifest, g, hm, hg⟩
    obtain rfl := Option.some.inj (hm.symm.trans hm')
    obtain rfl := Option.some.inj (hg.symm.trans hg')
    obtain ⟨s₁, s', t, hstart, hrun, ht, hcall, hpc⟩ :=
      response_of_servable hm hg hchunks hmu hkey httl hvalid
    refine ⟨s₁, s', t, hstart, hrun, ht, hcall, ?_⟩
    have hgen : p.manifest.generation = some g := by
      rw [Manifest.pinned] at hg
      split at hg
      · exact hg
      · cases hg
    have hp : p ∈ s.published := List.mem_of_find?_eq_some hlatest.1
    have hkey' := List.find?_some (p := fun q : Publication => q.key = key) hlatest.1
    obtain rfl : p.key = key := of_decide_eq_true hkey'
    obtain ⟨p', hp', hkey'', hman', hstored⟩ := hs.sound.publication hm hgen
    have hbody := hs.sound.storedBody_eq (p := p') hp' (by rw [hman']; exact hgen)
      (by rw [hman', hkey'']; exact hstored) (Nat.le_refl _)
    rw [hman', hkey'', (hs.sound.published p hp).2.1] at hbody
    obtain ⟨-, hsame⟩ := hs.sound.publication_unique hp hp' (by rw [hman'])
    rw [hpc, (hs.sound.published p hp).2.1, hbody, hsame, chunkPrefix_chunkCount]
  refill i key hmiss s₁ s' _ _ k t job hk hpc hop hjob hsame := by
    have hnone := hs.missing hmiss
    rw [← hsame, ← hjob] at hnone
    exact fetch_of_missing hk hpc hop hnone

/-- **A miss is refillable**: in every run in which no published response is empty, a request for
an entry gets the last publication, and a refill that has the lock while the entry is as it was at
the miss calls `Fetch`. -/
theorem misses_are_refillable
    (h : Run step (fun s a => a.sound ∧ a.publishesBody s) (init : State Unit) s) :
    s.Refillable := by
  refine (h.invariant (I := State.Stocked) (fun _ _ _ hs ha hstep =>
    (Steps.of_step hstep).stocked ha.1 ha.2 hs) ?_).refillable
  exact ⟨init_sound, fun _ _ h => (by cases h), fun _ _ h => (by cases h), fun _ h => (by cases h)⟩

/-- A test for the guard of `misses_are_refillable`. -/
def publishingStep (s : State Unit) : Action Unit → Bool
  | .run i o _ => o = .ok && (s.threads[i]?.all fun t => match t.pc with
      | .swap _ staged _ => staged.response.body ≠ []
      | _ => true)
  | .start _ (.warm _) _ => true
  | _ => false

theorem sound_of_publishingStep {a : Action Unit} (h : publishingStep s a = true) :
    a.sound ∧ a.publishesBody s := by
  cases a with
  | run i o fetched =>
    obtain ⟨ho, hbody⟩ := Bool.and_eq_true_iff.mp h
    refine ⟨⟨trivial, ?_⟩, ?_⟩
    · rintro _ _ _ ⟨⟩
      exact of_decide_eq_true ho
    · intro t job staged fetchedAt hi hpc
      rw [hi, Option.all_some, hpc] at hbody
      exact of_decide_eq_true hbody
  | start p call deadline =>
    cases call with
    | warm spec => exact ⟨⟨trivial, by rintro _ _ _ ⟨⟩⟩, trivial⟩
    | _ => cases h
  | _ => cases h

/-! ## An empty body -/

/-- A response without a body. -/
def emptyBody : Response := ⟨200, "application/json", [], 0, false⟩

/-- `Warm` publishes it, and a request has selected its manifest. -/
def warmEmptyBody : List (Action Unit) :=
  [.start () (.warm sampleSpec) none, .run 0 .ok none, .run 0 .ok none, .run 0 .ok none,
    .run 0 .ok (some emptyBody), .run 0 .ok none, .run 0 .ok none, .run 0 .ok none,
    .run 0 .ok none, .start () (.getOrFetch sampleSpec) none, .run 1 .ok none]

/-- The request has missed, and its refill has the lock. -/
def refillStarts : List (Action Unit) := [.run 1 .ok none, .run 2 .ok none, .run 2 .ok none]

/-- The manifest of the empty body. -/
def emptyManifest : Manifest := Job.manifest ⟨sampleSpec, .warm, 1, none⟩ ⟨2, emptyBody⟩ 0

/-- What is seen of the request, of its refill, and of the entry before and after. -/
structure Unavailable where
  /-- the request before its miss -/
  request : Option Pc
  /-- the request after its miss -/
  missed : Option Pc
  /-- the refill with the lock -/
  refill : Option Pc
  /-- the refill one step later -/
  next : Option Pc
  /-- the entry at the miss -/
  before : Option Hash
  /-- the entry when the refill has the lock -/
  after : Option Hash
  deriving DecidableEq

/-- A published empty body is never found, and no refill replaces it. -/
theorem empty_body_unavailable :
    ¬ ∀ s : State Unit, Run step (fun _ a => a.sound) init s → s.Refillable := by
  intro h
  have hsound : ∀ a ∈ warmEmptyBody, ∀ _ : State Unit, a.sound := by
    simp [warmEmptyBody, Action.sound, Action.plain, Action.faultless, Call.plain]
  have hsound' : ∀ a ∈ refillStarts, ∀ _ : State Unit, a.sound := by
    simp [refillStarts, Action.sound, Action.plain, Action.faultless]
  have heval : (exec step (init : State Unit) warmEmptyBody).map (fun s =>
      (step s (.run 1 .ok none)).bind fun s₁ => (exec step s₁ refillStarts).bind fun s' =>
        (step s' (.run 2 .ok none)).map fun s'' => Unavailable.mk (s.threads[1]?.map Thread.pc)
          (s₁.threads[1]?.map Thread.pc) (s'.threads[2]?.map Thread.pc)
          (s''.threads[2]?.map Thread.pc) (s.redis.hash "iptv:cache:p:e")
          (s'.redis.hash "iptv:cache:p:e")) =
      some (some ⟨some (.getBody "iptv:cache:p:e" emptyManifest (.getOrFetch sampleSpec)),
        some (.getRegister sampleSpec none), some (.loadOld ⟨sampleSpec, .fill, 3, none⟩),
        some (.unlock "iptv:cache:p:e" 3 (.returned .ok)), some ⟨emptyManifest, none⟩,
        some ⟨emptyManifest, none⟩⟩) := by
    decide +kernel
  obtain ⟨s, hrun, hobs⟩ := Run.of_eval hsound heval
  obtain ⟨s₁, hs₁, hobs⟩ := Option.bind_eq_some_iff.mp hobs
  obtain ⟨s', hs', hobs⟩ := Option.bind_eq_some_iff.mp hobs
  obtain ⟨s'', hs'', hobs⟩ := Option.map_eq_some_iff.mp hobs
  obtain ⟨hrequest, hmissed, hrefill, hstops, hhash, hhash'⟩ := Unavailable.mk.inj hobs
  obtain ⟨t, ht, hpc⟩ := Option.map_eq_some_iff.mp hrequest
  obtain ⟨u, hu, hupc⟩ := Option.map_eq_some_iff.mp hmissed
  obtain ⟨w, hw, hwpc⟩ := Option.map_eq_some_iff.mp hrefill
  have hrun' : Run step (fun _ a => a.sound) s₁ s' := Run.of_exec hsound' hs'
  have hmiss : s.Misses 1 "iptv:cache:p:e" :=
    ⟨t, sampleSpec, ht, .inr ⟨emptyManifest, hpc⟩, s₁, u, hs₁, hu, hupc⟩
  obtain ⟨s₂, x, hs₂, hx, job, hxpc⟩ := (h s hrun).refill 1 _ hmiss s₁ s' hs₁ hrun' 2 w _ hw hwpc
    rfl rfl (hhash'.trans hhash.symm)
  obtain rfl := Option.some.inj (hs''.symm.trans hs₂)
  rw [hx, Option.map_some, hxpc] at hstops
  cases hstops

/-- `Warm` publishes a body, and a request gets it. -/
theorem misses_are_refillable_sample :
    ∃ s : State Unit, Run step (fun s a => a.sound ∧ a.publishesBody s) init s ∧
      (s.redis.hash "iptv:cache:p:e").isSome = true ∧ s.Refillable := by
  have hok : ∀ (s : State Unit) (a : Action Unit), publishingStep s a = true →
      a.sound ∧ a.publishesBody s := fun _ _ => sound_of_publishingStep
  have heval : (exec (fun s a => if publishingStep s a then step s a else none)
      (init : State Unit) warmed).map (fun s => (s.redis.hash "iptv:cache:p:e").isSome) =
      some true := by
    decide +kernel
  obtain ⟨s, hrun, hobs⟩ := Run.of_tested hok heval
  exact ⟨s, hrun, hobs, misses_are_refillable hrun⟩

end IptvProxy.Cache
