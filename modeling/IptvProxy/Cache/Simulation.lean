import IptvProxy.Cache.View

/-!
# The cache simulates the store

`Window` is what a thread needs to know beyond its shape: a replacement that writes has a chunk
left to write, and while `Remove` holds `mu` the manifest stays the one it has read. `Steps.view`
says that every step is a step of the store, with the label it has there, or does not show; a
restart is a crash of the store.
-/

namespace IptvProxy.Cache

open Agents GenerationStore

/-- What thread `i` relies on. -/
def Thread.Local (s : State Unit) (i : ℕ) (t : Thread Unit) : Prop :=
  match t.pc with
  | .writeChunk _ staged j => j < chunkCount staged.response.body
  | .removeDel key _ m => (s.mgr ()).mu = some i ∧ m = s.redis.loadManifest key
  | _ => True

/-- Every thread can rely on it. -/
def State.Local (s : State Unit) : Prop :=
  ∀ (i : ℕ) (t : Thread Unit), s.threads[i]? = some t → t.Local s i

section Local

variable {s s' : State Unit} {i j : ℕ} {t : Thread Unit}

theorem Thread.local_of_settled (t : Thread Unit) {pc : Pc} (h : pc.settled) :
    Thread.Local s i { t with pc := pc } := by
  cases pc with
  | returned | schedule | unlock => trivial
  | _ => exact h.elim

theorem Thread.local_of_final (t : Thread Unit) {pc : Pc} (h : pc.final) :
    Thread.Local s i { t with pc := pc } :=
  t.local_of_settled (Pc.settled_of_final h)

theorem Thread.local_cleanupGeneration (t : Thread Unit) {key : String} {g n : ℕ}
    {background : Bool} {next : Pc} (h : next.settled) :
    Thread.Local s i { t with pc := .cleanupGeneration key g n background next } := by
  unfold Pc.cleanupGeneration
  split
  · trivial
  · exact t.local_of_settled h

theorem Thread.local_expireGenerationFallback (t : Thread Unit) {key : String} {g n : ℕ}
    {background : Bool} {next : Pc} (h : next.settled) :
    Thread.Local s i { t with pc := .expireGenerationFallback key g n background next } := by
  unfold Pc.expireGenerationFallback
  split
  · trivial
  · exact t.local_of_settled h

theorem Thread.local_staging (t : Thread Unit) (job : Job) (staged : Staged) (n : ℕ) :
    Thread.Local s i { t with pc := job.staging staged n } := by
  unfold Job.staging
  split
  · next hlt => exact hlt
  · trivial

theorem Thread.local_found (t : Thread Unit) (caller : GetCaller) (key : String) (m : Manifest)
    (r : Response) : Thread.Local s i { t with pc := caller.found key m r } := by
  cases caller <;> trivial

theorem Thread.local_notFound (t : Thread Unit) (caller : GetCaller) :
    Thread.Local s i { t with pc := caller.notFound } := by
  cases caller <;> trivial

/-- Another thread did not change what thread `j` relies on. -/
theorem Thread.Local.frame (h : t.Local s j)
    (hs : ((s'.mgr ()).mu = (s.mgr ()).mu ∧ s'.redis.hash = s.redis.hash) ∨
      (s.mgr ()).mu ≠ some j) : t.Local s' j := by
  unfold Thread.Local at h ⊢
  cases hpc : t.pc <;> rw [hpc] at h
  case removeDel key opID m =>
    rcases hs with ⟨hmu, hhash⟩ | hne
    · refine ⟨hmu.trans h.1, ?_⟩
      rw [Redis.loadManifest, hhash]
      exact h.2
    · exact absurd h.1 hne
  all_goals exact h

theorem State.setMgr_mgr (s : State Unit) (p : Unit) (m : Manager) : (s.setMgr p m).mgr () = m := by
  cases p
  exact Function.update_self () m s.mgr

theorem registerIfAbsent_same (m : Manager) (spec : Spec) :
    (m.registerIfAbsent spec).2.mu = m.mu ∧ (m.registerIfAbsent spec).2.readers = m.readers ∧
      (m.registerIfAbsent spec).2.retired = m.retired := by
  unfold Manager.registerIfAbsent
  split <;> exact ⟨rfl, rfl, rfl⟩

/-- A section leaves `mu` and the manifests alone, or nobody else holds `mu`. -/
theorem Ran.mu_hash {o : Outcome} (h : Ran s i t o s') (hp : t.pc.plain) :
    ((s'.mgr ()).mu = (s.mgr ()).mu ∧ s'.redis.hash = s.redis.hash) ∨
      (s.mgr ()).mu = none ∨ (s.mgr ()).mu = some i := by
  cases h with
  | pin _ hmu | unpin _ hmu => exact .inr (.inl hmu)
  | registerHit _ hmu | registerMiss _ hmu | schedule _ hmu => exact .inr (.inl hmu)
  | register _ hmu | warm _ hmu | removeLoad _ hmu => exact .inr (.inl hmu)
  | swapLost _ hmu | swapFirst _ hmu => exact .inr (.inl hmu)
  | swapWaits _ hmu | swapClears _ hmu => exact .inr (.inl hmu)
  | removeDelFailed _ hmu | removeDelLost _ hmu => exact .inr (.inr hmu)
  | removeEmpty _ hmu | removeWaits _ hmu | removeClears _ hmu => exact .inr (.inr hmu)
  | @acquireFailed _ _ _ applied | @removeAcquireFailed _ _ applied =>
    cases applied <;> exact .inl ⟨rfl, rfl⟩
  | migratePublish hpc _ | migrateRegister hpc _ | duplicateForget hpc _ | duplicateDel hpc =>
    rw [hpc] at hp
    exact hp.elim
  | _ => exact .inl ⟨rfl, rfl⟩

theorem Moves.local {o : Outcome} {pc pc' : Pc} (h : Moves s t o pc pc') (hp : pc.plain) :
    Thread.Local s' i { t with pc := pc' } := by
  cases h with
  | getMissing | getBodyMissing => exact t.local_notFound _
  | getBodyFound | getChunkDone => exact t.local_found ..
  | cleanupFailed | expireFailed =>
    split
    · trivial
    · exact t.local_of_settled hp
  | loadOldFailed | fetchFailed => exact t.local_of_settled (Job.settled_failed _ _)
  | writeChunkFailed | swapFailed => exact t.local_cleanupGeneration (Job.settled_failed _ _)
  | unlockFailed => exact t.local_of_final hp
  | migrateLoadFound | migrateLoadMissing | duplicateLoadSome => exact hp.elim
  | _ => trivial

/-- What the running thread relies on afterwards. -/
theorem Ran.local_self {o : Outcome} (h : Ran s i t o s') (hi : s.threads[i]? = some t)
    (hp : t.pc.plain) : ∃ t', s'.threads[i]? = some t' ∧ t'.Local s' i := by
  have hset : ∀ {u : Thread Unit}, s'.threads = s.threads.set i u → u.Local s' i →
      ∃ t', s'.threads[i]? = some t' ∧ t'.Local s' i := by
    intro u hu hlocal
    exact ⟨u, getElem?_of_eq_set hu hi, hlocal⟩
  cases h with
  | move hpc hm =>
    rw [hpc] at hp
    exact hset rfl (hm.local hp)
  | pin | registerHit | refill | register | warm | purge | stage | removeDelFailed |
    removeDelLost | removeEmpty =>
    first
      | exact hset rfl trivial
      | exact hset rfl (t.local_staging ..)
  | registerMiss =>
    exact ⟨_, getElem?_append_of_some (getElem?_set_of_some hi), trivial⟩
  | unpin hpc _ =>
    rw [hpc] at hp
    refine hset rfl ?_
    split
    · exact Thread.local_of_final { t with lease := none } hp
    · exact Thread.local_cleanupGeneration { t with lease := none } (Pc.settled_of_final hp)
  | cleanup hpc _ =>
    rw [hpc] at hp
    refine hset rfl ?_
    split
    · trivial
    · exact t.local_of_settled hp
  | expire hpc _ =>
    rw [hpc] at hp
    refine hset rfl ?_
    split
    · trivial
    · exact t.local_of_settled hp
  | schedule hpc _ =>
    rw [hpc] at hp
    exact hset rfl (t.local_of_settled hp)
  | acquireFailed =>
    exact hset (State.attempted_setThread ..) (t.local_of_final (Operation.final_failed ..))
  | acquired => exact hset (State.attempted_setThread ..) trivial
  | writeChunk =>
    refine hset rfl ?_
    split
    · exact t.local_staging ..
    · exact t.local_cleanupGeneration (Job.settled_failed _ _)
  | swapLost => exact hset rfl (t.local_cleanupGeneration (Job.settled_failed _ _))
  | swapFirst hpc =>
    rw [hpc] at hp
    exact hset rfl (t.local_of_settled (Job.settled_published hp))
  | swapWaits hpc =>
    rw [hpc] at hp
    exact hset rfl (t.local_expireGenerationFallback (Job.settled_published hp))
  | swapClears hpc =>
    rw [hpc] at hp
    exact hset rfl (t.local_cleanupGeneration (Job.settled_published hp))
  | unlock hpc _ =>
    rw [hpc] at hp
    exact hset rfl (t.local_of_final hp)
  | removeAcquireFailed | removeAcquired =>
    exact hset (State.attempted_setThread ..) trivial
  | removeLoad =>
    refine hset rfl ⟨?_, rfl⟩
    exact congrArg Manager.mu (s.setMgr_mgr ..)
  | removeWaits => exact hset rfl (t.local_expireGenerationFallback Pc.settled_unlock)
  | removeClears => exact hset rfl (t.local_cleanupGeneration Pc.settled_unlock)
  | migratePublish hpc _ | migrateRegister hpc _ | duplicateForget hpc _ | duplicateDel hpc =>
    rw [hpc] at hp
    exact hp.elim

/-- The other threads stay, and a new one is a refill. -/
theorem Ran.others {o : Outcome} (h : Ran s i t o s') {u : Thread Unit}
    (hj : s'.threads[j]? = some u) (hji : j ≠ i) :
    s.threads[j]? = some u ∨ ∃ spec, u.pc = .refillMissing spec := by
  have hset : ∀ {t' : Thread Unit}, (s.threads.set i t')[j]? = some u →
      s.threads[j]? = some u ∨ ∃ spec, u.pc = .refillMissing spec := by
    intro t' hu
    rcases getElem?_set_cases hu with ⟨heq, -⟩ | ⟨-, hold⟩
    · exact absurd heq hji
    · exact .inl hold
  cases h with
  | registerMiss =>
    rcases getElem?_append_cases hj with hu | rfl
    · exact hset hu
    · exact .inr ⟨_, rfl⟩
  | acquireFailed | acquired | removeAcquireFailed | removeAcquired =>
    rw [State.goto, State.attempted_setThread] at hj
    exact hset hj
  | _ => exact hset hj

theorem Ran.local {o : Outcome} (h : Ran s i t o s') (hi : s.threads[i]? = some t)
    (hp : t.pc.plain) (hs : s.Local) : s'.Local := by
  intro j u hj
  by_cases hji : j = i
  · subst hji
    obtain ⟨t', ht', hlocal⟩ := h.local_self hi hp
    rw [ht'] at hj
    obtain rfl := Option.some.inj hj
    exact hlocal
  · rcases h.others hj hji with hold | ⟨spec, hpc⟩
    · refine (hs j u hold).frame ?_
      rcases h.mu_hash hp with hsame | hnone | hsome
      · exact .inl hsame
      · exact .inr fun hj => by rw [hnone] at hj; cases hj
      · exact .inr fun hj => hji (Option.some.inj (hj.symm.trans hsome))
    · unfold Thread.Local
      rw [hpc]
      trivial

theorem Call.local_entry {call : Call} (t : Thread Unit) :
    Thread.Local s i { t with pc := call.entry } := by
  have h := call.enters
  generalize call.entry = pc at h
  cases h <;> trivial

theorem stepRestart_thread {p : Unit} {u : Thread Unit}
    (hj : (stepRestart s p).threads[j]? = some u) :
    ∃ v, s.threads[j]? = some v ∧ u = { v with lease := none, pc := .crashed } := by
  obtain ⟨v, hv, hu⟩ := Option.map_eq_some_iff.mp ((List.getElem?_map ..).symm.trans hj)
  rw [if_pos (Subsingleton.elim v.pid p)] at hu
  exact ⟨v, hv, hu.symm⟩

theorem Steps.local {a : Action Unit} (h : Steps s a s') (hshape : s.Shape) (hs : s.Local) :
    s'.Local := by
  have hspawn : ∀ {ts : List (Thread Unit)} {u : Thread Unit}, ts = s.threads →
      s'.threads = ts ++ [u] → (s'.mgr ()).mu = (s.mgr ()).mu →
      s'.redis.hash = s.redis.hash → (∀ j, u.Local s' j) → s'.Local := by
    rintro _ u rfl hts hmu hhash hu j v hj
    rw [hts] at hj
    rcases getElem?_append_cases hj with hold | rfl
    · exact (hs j v hold).frame (.inl ⟨hmu, hhash⟩)
    · exact hu j
  have hreplace : ∀ {k : ℕ} {u : Thread Unit}, s'.threads = s.threads.set k u →
      s'.mgr = s.mgr → s'.redis = s.redis → u.Local s' k → s'.Local := by
    intro k u hts hmgr hredis hu j v hj
    rw [hts] at hj
    rcases getElem?_set_cases hj with ⟨rfl, rfl⟩ | ⟨-, hold⟩
    · exact hu
    · exact (hs j v hold).frame (.inl ⟨by rw [hmgr], by rw [hredis]⟩)
  cases h with
  | @start p call deadline =>
    exact hspawn rfl rfl rfl rfl fun _ =>
      Call.local_entry (⟨_, _, _, _, _, _, _, _, .crashed⟩ : Thread Unit)
  | run hi h => exact h.local hi (hshape _ (List.mem_of_getElem? hi)).plain hs
  | fire _ _ _ =>
    refine hspawn rfl rfl ?_ rfl fun _ => trivial
    exact (congrArg Manager.mu (s.setMgr_mgr _ _)).trans rfl
  | release hi _ _ => exact hreplace rfl rfl rfl trivial
  | releaseAgain => exact hs
  | @cancel k t hi _ =>
    have ht : t.Local s k := hs k t hi
    exact hreplace (u := { t with cancelled := true }) rfl rfl rfl ht
  | tick => exact fun j v hj => hs j v hj
  | restart =>
    intro j u hj
    obtain ⟨v, -, rfl⟩ := stepRestart_thread hj
    trivial

end Local

/-! ## Steps of the store -/

/-- The label of a section of thread `i`, as it appears in the store. -/
def Labelled (s : State Unit) (i : ℕ) (t : Thread Unit) (o : Outcome) : Label → Prop
  | .other => True
  | .swap j => j = i ∧ t.ctxDone s.now = false ∧ ∃ job staged fetchedAt,
      t.pc = .swap job staged fetchedAt
  | .clean j applied => j = i ∧ ∃ key g n k background next,
      t.pc = .cleanup key g n k background next ∧
        applied = (if background then o else t.under s.now o).applied
  | .expire j applied => j = i ∧ ∃ key g n k background next,
      t.pc = .expire key g n k background next ∧
        applied = (if background then o else t.under s.now o).applied
  | .crash => False

section Simulation

variable {s s' : State Unit} {i : ℕ} {t : Thread Unit} {o : Outcome}

/-- What the store sees of a section: nothing, or a step. -/
def Seen (s : State Unit) (i : ℕ) (t : Thread Unit) (o : Outcome) (s' : State Unit) : Prop :=
  storeView s' = storeView s ∨
    ∃ l, GenerationStore.Step (storeView s) l (storeView s') ∧ Labelled s i t o l

theorem Seen.step {l : Label} (h : GenerationStore.Step (storeView s) l (storeView s'))
    (hl : Labelled s i t o l) : Seen s i t o s' :=
  .inr ⟨l, h, hl⟩

/-- A thread that goes on in the same role. -/
theorem seen_goto {pc' : Pc} (hi : s.threads[i]? = some t) (h : pc'.role = t.pc.role) :
    Seen s i t o (s.goto i t pc') :=
  .inl (storeView_same hi (by rw [Thread.agent, Thread.agent, h]))

theorem Moves.seen {pc pc' : Pc} (h : Moves s t o pc pc') (hpc : t.pc = pc)
    (hi : s.threads[i]? = some t) (hp : pc.plain) : Seen s i t o (s.goto i t pc') := by
  have hagent := storeView_agents hi
  have hview := storeView_goto s i t pc'
  rw [hpc] at hagent
  have hidle : pc'.role = .idle → pc.role = .idle → Seen s i t o (s.goto i t pc') := by
    intro h' h
    exact seen_goto hi (by rw [h', hpc, h])
  cases h with
  | getMissing | getBodyMissing => exact hidle (GetCaller.role_notFound _) rfl
  | getBodyFound | getChunkDone => exact hidle (GetCaller.role_found ..) rfl
  | @cleanupFailed key g n j background next happ =>
    refine .step (l := .clean i false) ?_ ⟨rfl, key, g, n, j, background, next, hpc, happ.symm⟩
    rw [hview]
    have hstep := Step.clean false hagent
    rw [if_neg Bool.false_ne_true] at hstep
    split
    · next hlt => rwa [if_pos hlt] at hstep
    · next hlt => rwa [if_neg hlt, ← Pc.role_of_settled hp] at hstep
  | @expireFailed key g n j background next happ =>
    refine .step (l := .expire i false) ?_ ⟨rfl, key, g, n, j, background, next, hpc, happ.symm⟩
    rw [hview]
    have hstep := Step.expire false 0 hagent
    rw [if_neg Bool.false_ne_true] at hstep
    split
    · next hlt => rwa [if_pos hlt] at hstep
    · next hlt => rwa [if_neg hlt, ← Pc.role_of_settled hp] at hstep
  | loadOldFill =>
    refine .step (l := .other) ?_ trivial
    rw [hview]
    exact Step.load hagent (.inl rfl)
  | loadOldFailed => exact hidle (Pc.role_of_settled (Job.settled_failed _ _)) rfl
  | @loadOld job hop happ =>
    refine .step (l := .other) ?_ trivial
    rw [hview]
    refine Step.load hagent (.inr ?_)
    change (s.redis.loadManifest job.spec.key).bind Manifest.pointer = _
    rw [Redis.loadManifest, Option.bind_map]
    rfl
  | fetchFailed =>
    refine .step (l := .other) ?_ trivial
    rw [hview, Pc.role_of_settled (Job.settled_failed _ _)]
    exact Step.drop hagent
  | writeChunkFailed =>
    refine .step (l := .other) ?_ trivial
    rw [hview, Pc.role_cleanupGeneration (Job.settled_failed _ _)]
    exact Step.abandon hagent
  | stamp => exact seen_goto hi (by rw [hpc]; rfl)
  | swapFailed =>
    refine .step (l := .other) ?_ trivial
    rw [hview, Pc.role_cleanupGeneration (Job.settled_failed _ _), ← length_bodyPieces]
    exact Step.abandon hagent
  | scheduleFromMeta => exact hidle rfl rfl
  | unlockFailed => exact hidle (Pc.role_of_final hp) rfl
  | migrateLoadFailed | migrateLoadFound | migrateLoadMissing => exact hp.elim
  | migrateDisabled | duplicateLoadFailed | duplicateLoadNone => exact hp.elim
  | duplicateLoadSome | duplicateDelFailed => exact hp.elim
  | _ => exact hidle rfl rfl

/-- A generation that has to wait for its readers. -/
theorem storeView_waits {m : Manager} {p : Unit} {r : RetiredGeneration} {background : Bool}
    {next : Pc} (hread : m.readers = (s.mgr ()).readers) (hret : m.retired = (s.mgr ()).retired)
    (hpos : 0 < m.readers (r.key, r.generation)) (hnext : next.settled) :
    storeView ((s.setMgr p (m.retire r)).goto i t
        (.expireGenerationFallback r.key r.generation r.chunkCount background next)) =
      (storeView s).retire i t.lease r.entry := by
  have hupdate : (fun l => (Function.update m.retired (r.key, r.generation) (some r) l).map
      RetiredGeneration.entry) =
      Function.update (storeView s).retired (r.key, r.generation) (some r.entry) := by
    funext l
    by_cases hl : l = (r.key, r.generation)
    · rw [hl, Function.update_self, Function.update_self]
      rfl
    · rw [Function.update_of_ne hl, Function.update_of_ne hl, hret]
      rfl
  have hview : storeView (s.setMgr p (m.retire r)) =
      { storeView s with
        retired := Function.update (storeView s).retired (r.key, r.generation)
          (some r.entry) } := by
    rw [storeView_setMgr, show (m.retire r).readers = (storeView s).readers from hread]
    exact congrArg (fun f => { storeView s with retired := f }) hupdate
  have hpos' : 0 < (storeView s).readers (r.entry.key, r.entry.generation) := by
    rw [hread] at hpos
    exact hpos
  rw [storeView_goto, hview, Pc.role_expireGenerationFallback hnext, Store.retire, if_pos hpos']
  rfl

/-- A generation that can be deleted. -/
theorem storeView_clears {r : RetiredGeneration} {background : Bool} {next : Pc}
    (hzero : (s.mgr ()).readers (r.key, r.generation) = 0) (hnext : next.settled) :
    storeView (s.goto i t (.cleanupGeneration r.key r.generation r.chunkCount background next)) =
      (storeView s).retire i t.lease r.entry := by
  have hpos : ¬ 0 < (storeView s).readers (r.entry.key, r.entry.generation) := by
    intro hpos
    exact absurd hzero (Nat.ne_of_gt hpos)
  rw [storeView_goto, Pc.role_cleanupGeneration hnext, Store.retire, if_neg hpos]
  rfl

theorem Job.retires_key {job : Job} {g : ℕ} {r : RetiredGeneration} (h : job.retires g = some r) :
    r.key = job.spec.key := by
  obtain ⟨m, -, h⟩ := Option.bind_eq_some_iff.mp h
  obtain ⟨old, -, h⟩ := Option.bind_eq_some_iff.mp h
  split at h
  · cases h
  · obtain rfl := Option.some.inj h
    rfl

theorem removeRetires_key {key : String} {m : Option Manifest} {r : RetiredGeneration}
    (h : removeRetires key m = some r) : r.key = key := by
  obtain ⟨m, -, h⟩ := Option.bind_eq_some_iff.mp h
  obtain ⟨g, -, h⟩ := Option.bind_eq_some_iff.mp h
  obtain rfl := Option.some.inj h
  rfl

theorem storeView_unpin (s : State Unit) (p : Unit) (l : LeaseKey) :
    storeView (s.setMgr p ((s.mgr p).unpin l).1) = ((storeView s).unpin l).1 ∧
      (((s.mgr p).unpin l).2).map RetiredGeneration.entry = ((storeView s).unpin l).2 := by
  rw [storeView_setMgr]
  unfold Manager.unpin Store.unpin
  by_cases hmore : 1 < (s.mgr p).readers l
  · rw [if_pos hmore, if_pos (show 1 < (storeView s).readers l from hmore)]
    exact ⟨rfl, rfl⟩
  · rw [if_neg hmore, if_neg (show ¬ 1 < (storeView s).readers l from hmore)]
    refine ⟨?_, rfl⟩
    have hret : (fun x => (Function.update (s.mgr p).retired l none x).map
        RetiredGeneration.entry) = Function.update (storeView s).retired l none := by
      funext x
      by_cases hx : x = l
      · rw [hx, Function.update_self, Function.update_self]
        rfl
      · rw [Function.update_of_ne hx, Function.update_of_ne hx]
        rfl
    exact congrArg (fun f => { storeView s with
      readers := Function.update (s.mgr p).readers l 0, retired := f }) hret

/-- **Every section is a step of the store**, or the store does not see it. -/
theorem under_ne_lost {o : Outcome} (ho : o ≠ .lost) (now : ℕ) : t.under now o ≠ .lost := by
  rw [Thread.under]
  split
  · decide
  · exact ho

theorem Ran.seen (h : Ran s i t o s') (hi : s.threads[i]? = some t) (hshape : t.Shape s.now)
    (hlocal : t.Local s i) (ho : o ≠ .lost) : Seen s i t o s' := by
  obtain ⟨hp, hl, -⟩ := hshape
  unfold Thread.LeaseOk at hl
  unfold Thread.Local at hlocal
  have hagent := storeView_agents hi
  have hsame : ∀ {s₁ : State Unit} {t' : Thread Unit}, storeView s₁ = storeView s →
      s₁.threads[i]? = some t → t'.agent = t.agent →
      storeView (s₁.setThread i t') = storeView s :=
    fun hs₁ hi₁ ht' => (storeView_same hi₁ ht').trans hs₁
  have hother : ∀ {s₁ : State Unit} {t' : Thread Unit}, storeView s₁ = storeView s →
      s₁.threads[i]? = some t → t'.agent = t.agent → Seen s i t o (s₁.setThread i t') :=
    fun hs₁ hi₁ ht' => .inl (hsame hs₁ hi₁ ht')
  have halive : t.under s.now o = .ok → t.ctxDone s.now = false := by
    intro hok
    unfold Thread.under at hok
    split at hok
    · cases hok
    · next hdone => exact Bool.eq_false_iff.mpr hdone
  have hunder : t.under s.now o ≠ .lost := under_ne_lost ho s.now
  cases h with
  | move hpc hm => exact hm.seen hpc hi (hpc ▸ hp)
  | @pin key caller m g hpc hmu hm hg =>
    rw [hpc] at hl hagent
    refine .step (l := .other) ?_ trivial
    rw [storeView_setThread, storeView_setMgr]
    have hactive : (storeView s).active key = some ⟨g, m.chunkCount, m⟩ ∧ 0 < m.chunkCount := by
      unfold Manifest.pinned at hg
      split at hg
      · next hpos =>
        refine ⟨?_, hpos⟩
        obtain ⟨h, hh, rfl⟩ := Option.map_eq_some_iff.mp hm
        change (s.redis.hash key).bind _ = _
        rw [hh, Option.bind_some, Manifest.pointer, hg]
        rfl
      · cases hg
    rw [hl] at hagent
    exact Step.pin hagent hactive.1 hactive.2
  | @unpin key g next hpc hmu =>
    rw [hpc] at hl hagent hp
    rw [hl] at hagent
    refine .step (l := .other) ?_ trivial
    -- the last reader of a retired generation cleans it up, any other one only leaves
    obtain ⟨hstore, hret⟩ := storeView_unpin s t.pid (key, g)
    rw [storeView_setThread, hstore]
    have hstep := Step.unpin hagent
    rw [← hret] at hstep
    rcases hr : ((s.mgr t.pid).unpin (key, g)).2 with _ | r
    · rw [hr] at hstep
      rw [Store.setRole, ← Pc.role_of_final hp] at hstep
      exact hstep
    · rw [hr] at hstep
      rw [Store.setRole] at hstep
      dsimp only [Option.map_some] at hstep
      rw [← @Pc.role_cleanupGeneration _ _ _ true _ (Pc.settled_of_final hp)] at hstep
      exact hstep
  | @cleanup key g n j background next hpc happ =>
    rw [hpc] at hp hagent
    refine .step (l := .clean i true) ?_ ⟨rfl, key, g, n, j, background, next, hpc, happ.symm⟩
    rw [storeView_goto]
    have hstep := Step.clean true hagent
    rw [if_pos rfl] at hstep
    split
    · next hlt => rwa [if_pos hlt] at hstep
    · next hlt => rwa [if_neg hlt, ← Pc.role_of_settled hp] at hstep
  | @expire key g n j background next hpc happ =>
    rw [hpc] at hp hagent
    refine .step (l := .expire i true) ?_ ⟨rfl, key, g, n, j, background, next, hpc, happ.symm⟩
    rw [storeView_goto]
    have hstep := Step.expire true (s.now + retiredGenerationFallbackTTL) hagent
    rw [if_pos rfl] at hstep
    split
    · next hlt => rwa [if_pos hlt] at hstep
    · next hlt => rwa [if_neg hlt, ← Pc.role_of_settled hp] at hstep
  | @registerHit spec manifest r hpc hmu =>
    obtain ⟨-, hread, hret⟩ := registerIfAbsent_same (s.mgr t.pid) spec
    exact hother (storeView_setMgr_same hread hret) hi
      (by simp only [Thread.agent, hpc]; rfl)
  | @registerMiss spec hpc hmu =>
    obtain ⟨-, hread, hret⟩ := registerIfAbsent_same (s.mgr t.pid) spec
    refine .step (l := .other) ?_ trivial
    rw [storeView_spawn _ _ rfl rfl, State.goto,
      storeView_same (s := s.setMgr t.pid ((s.mgr t.pid).registerIfAbsent spec).2) hi
        (by simp only [Thread.agent, hpc]; rfl), storeView_setMgr_same hread hret]
    exact Step.spawn
  | schedule hpc hmu =>
    rw [hpc] at hp
    exact hother (storeView_setMgr_same rfl rfl) hi
      (by simp only [Thread.agent, hpc, Pc.role_of_settled hp]; rfl)
  | refill hpc => exact hother rfl hi (by simp only [Thread.agent, hpc]; rfl)
  | register hpc hmu =>
    exact hother (storeView_setMgr_same rfl rfl) hi (by simp only [Thread.agent, hpc]; rfl)
  | @warm spec hpc hmu =>
    obtain ⟨-, hread, hret⟩ := registerIfAbsent_same (s.mgr t.pid) spec
    exact hother (storeView_setMgr_same hread hret) hi
      (by simp only [Thread.agent, hpc]; rfl)
  | purge hpc hs => exact hother rfl hi (by simp only [Thread.agent, hpc]; rfl)
  | @acquireFailed spec operation e applied hpc _ =>
    refine .step (l := .other) ?_ trivial
    rw [State.goto, storeView_same (by rw [State.attempted_threads]; exact hi)
      (by simp only [Thread.agent, hpc, Pc.role_of_final (Operation.final_failed _ _)]; rfl),
      storeView_attempted]
    exact Step.newID
  | acquired hpc _ _ =>
    refine .step (l := .other) ?_ trivial
    rw [State.goto, storeView_same (by rw [State.attempted_threads]; exact hi)
      (by simp only [Thread.agent, hpc]; rfl), storeView_attempted]
    exact Step.newID
  | @stage job fresh hpc _ =>
    rw [hpc] at hagent
    refine .step (l := .other) ?_ trivial
    rw [storeView_goto, Job.role_staging _ _ (Nat.zero_le _)]
    exact Step.stage (bodyPieces fresh.body) hagent
  | @writeChunk job staged j hpc happ =>
    rw [hpc] at hlocal hagent
    -- without a lost reply, a chunk that was written is known to be written
    have hrep : (t.under s.now o).replied = true := by
      cases hu : t.under s.now o with
      | ok => rfl
      | fail => rw [hu] at happ; cases happ
      | lost => exact absurd hu hunder
    refine .step (l := .other) ?_ trivial
    rw [if_pos hrep, storeView_goto, Job.role_staging _ _ (Nat.succ_le_of_lt hlocal)]
    exact Step.write (s.now + stagingGenerationTTL) hagent (getElem?_bodyPieces hlocal)
  | swapLost hpc _ hlost _ => exact absurd hlost hunder
  | @swapFirst job staged fetchedAt hpc _ hok hexist hr =>
    rw [hpc] at hp hagent
    refine .step (l := .swap i) ?_ ⟨rfl, halive hok, job, staged, fetchedAt, hpc⟩
    rw [storeView_goto, storeView_publish, Pc.role_of_settled (Job.settled_published hp)]
    have hstep := Step.swap (job.manifest staged fetchedAt) hagent fun j hj =>
      has_of_stagedChunksExist hexist (by rwa [length_bodyPieces] at hj)
    rw [← Job.retires_eq, hr] at hstep
    exact hstep
  | @swapWaits job staged fetchedAt r hpc _ hok hexist hr hpos =>
    rw [hpc] at hp hagent
    refine .step (l := .swap i) ?_ ⟨rfl, halive hok, job, staged, fetchedAt, hpc⟩
    have hstep := Step.swap (job.manifest staged fetchedAt) hagent fun j hj =>
      has_of_stagedChunksExist hexist (by rwa [length_bodyPieces] at hj)
    rw [← Job.retires_eq, hr] at hstep
    have hkey : r.key = job.spec.key := Job.retires_key hr
    rw [← hkey] at hpos ⊢
    rw [storeView_waits (s := publishGenerationScript s job staged fetchedAt)
      (m := s.mgr t.pid) (p := t.pid) rfl rfl hpos (Job.settled_published hp), storeView_publish]
    exact hstep
  | @swapClears job staged fetchedAt r hpc _ hok hexist hr hzero =>
    rw [hpc] at hp hagent
    refine .step (l := .swap i) ?_ ⟨rfl, halive hok, job, staged, fetchedAt, hpc⟩
    have hstep := Step.swap (job.manifest staged fetchedAt) hagent fun j hj =>
      has_of_stagedChunksExist hexist (by rwa [length_bodyPieces] at hj)
    rw [← Job.retires_eq, hr] at hstep
    have hkey : r.key = job.spec.key := Job.retires_key hr
    rw [← hkey] at hzero ⊢
    rw [storeView_clears (s := publishGenerationScript s job staged fetchedAt) hzero
      (Job.settled_published hp), storeView_publish]
    exact hstep
  | unlock hpc _ =>
    rw [hpc] at hp
    exact hother rfl hi (by simp only [Thread.agent, hpc, Pc.role_of_final hp]; rfl)
  | removeAcquireFailed hpc _ | removeAcquired hpc _ _ =>
    refine .step (l := .other) ?_ trivial
    rw [State.goto, storeView_same (by rw [State.attempted_threads]; exact hi)
      (by simp only [Thread.agent, hpc]; rfl), storeView_attempted]
    exact Step.newID
  | removeLoad hpc _ =>
    exact hother (storeView_setMgr_same rfl rfl) hi (by simp only [Thread.agent, hpc]; rfl)
  | removeDelFailed hpc _ _ =>
    exact hother (storeView_setMgr_same rfl rfl) hi (by simp only [Thread.agent, hpc]; rfl)
  | removeDelLost hpc _ hlost => exact absurd hlost hunder
  | @removeEmpty key opID m hpc _ _ hr =>
    rw [hpc] at hlocal hagent
    -- under the mutex, the manifest that was read is still the one that is stored
    obtain ⟨-, rfl⟩ := hlocal
    refine .step (l := .other) ?_ trivial
    have hstep := Step.remove (k := key) hagent
    rw [← removeRetires_eq, hr] at hstep
    rw [State.goto, storeView_same (s := (s.setHash key none).setMgr t.pid _) hi
      (by simp only [Thread.agent, hpc]; rfl), storeView_setMgr_same (s := s.setHash key none)
      (m := Manager.forget { s.mgr t.pid with mu := none } key) rfl rfl, storeView_setHash]
    exact hstep
  | @removeWaits key opID m r hpc _ _ hr hpos =>
    rw [hpc] at hlocal hagent
    obtain ⟨-, rfl⟩ := hlocal
    refine .step (l := .other) ?_ trivial
    have hstep := Step.remove (k := key) hagent
    rw [← removeRetires_eq, hr] at hstep
    have hkey : r.key = key := removeRetires_key hr
    rw [← hkey] at hpos ⊢
    rw [storeView_waits (s := s.setHash r.key none) (p := t.pid)
      (m := Manager.forget { s.mgr t.pid with mu := none } r.key) rfl rfl hpos Pc.settled_unlock,
      storeView_setHash]
    rw [← hkey] at hstep
    exact hstep
  | @removeClears key opID m r hpc _ _ hr hzero =>
    rw [hpc] at hlocal hagent
    obtain ⟨-, rfl⟩ := hlocal
    refine .step (l := .other) ?_ trivial
    have hstep := Step.remove (k := key) hagent
    rw [← removeRetires_eq, hr] at hstep
    have hkey : r.key = key := removeRetires_key hr
    rw [← hkey] at hzero ⊢
    rw [storeView_clears (by rw [State.setMgr_mgr]; exact hzero) Pc.settled_unlock,
      storeView_setMgr_same (s := s.setHash r.key none)
        (m := Manager.forget { s.mgr t.pid with mu := none } r.key) rfl rfl, storeView_setHash]
    rw [← hkey] at hstep
    exact hstep
  | migratePublish hpc _ | migrateRegister hpc _ | duplicateForget hpc _ | duplicateDel hpc =>
    rw [hpc] at hp
    exact hp.elim

theorem Call.role_entry (call : Call) : call.entry.role = .idle := by
  have h := call.enters
  generalize call.entry = pc at h
  cases h <;> rfl

/-! ## Runs -/

/-- A command that returns an error had no effect, and nobody migrates. -/
def Action.atomic (a : Action Unit) : Prop :=
  a.plain ∧ ∀ i o fetched, a = .run i o fetched → o ≠ .lost

/-- The process does not restart. -/
def Action.steady : Action Unit → Prop
  | .restart _ => False
  | _ => True

/-- The label of an action. -/
def Action.Labelled (s : State Unit) (a : Action Unit) (l : Label) : Prop :=
  match a with
  | .run i o _ => ∃ t, s.threads[i]? = some t ∧ Cache.Labelled s i t o l
  | .restart _ => l = .crash
  | _ => l = .other

/-- **Every step is a step of the store**, or the store does not see it. -/
theorem Steps.view {a : Action Unit} (h : Steps s a s') (ha : a.atomic) (hshape : s.Shape)
    (hlocal : s.Local) :
    storeView s' = storeView s ∨
      ∃ l, GenerationStore.Step (storeView s) l (storeView s') ∧ a.Labelled s l := by
  cases h with
  | @start p call deadline =>
    refine .inr ⟨.other, ?_, rfl⟩
    rw [storeView_spawn _ _ rfl (Call.role_entry call)]
    exact Step.spawn
  | @run i o fetched t _ hi h =>
    rcases h.seen hi (hshape t (List.mem_of_getElem? hi)) (hlocal i t hi)
      (ha.2 i o fetched rfl) with heq | ⟨l, hstep, hl⟩
    · exact .inl heq
    · exact .inr ⟨l, hstep, t, hi, hl⟩
  | @fire p key tm htm hp hdue =>
    refine .inr ⟨.other, ?_, rfl⟩
    rw [storeView_spawn _ _ rfl rfl, storeView_setMgr_same (s := s) (p := p)
      (m := { s.mgr p with
        timers := Function.update (s.mgr p).timers key (some { tm with pending := false }) })
      rfl rfl]
    exact Step.spawn
  | release hi hpc hl => exact .inl (storeView_same hi (by simp only [Thread.agent, hpc]; rfl))
  | releaseAgain => exact .inl rfl
  | cancel hi _ => exact .inl (storeView_same hi rfl)
  | @tick d => exact .inr ⟨.other, Step.tick d, rfl⟩
  | @restart p =>
    refine .inr ⟨.crash, ?_, rfl⟩
    have hview : storeView (stepRestart s p) =
        { storeView s with
          readers := fun _ => 0
          retired := fun _ => none
          agents := (storeView s).agents.map fun _ => ⟨none, .idle⟩ } := by
      have hmgr : (stepRestart s p).mgr () = newManager := by
        cases p
        exact Function.update_self () newManager s.mgr
      have hagents : (stepRestart s p).threads.map Thread.agent =
          (storeView s).agents.map fun _ => ⟨none, .idle⟩ := by
        simp only [stepRestart, storeView, List.map_map]
        exact List.map_congr_left fun t _ => by
          simp only [Function.comp_apply]
          rfl
      unfold storeView
      rw [hmgr, hagents]
      rfl
    rw [hview]
    exact Step.crash

end Simulation

end IptvProxy.Cache
