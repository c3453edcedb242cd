import IptvProxy.Lib.GenerationOwnership
import IptvProxy.Cache.Whole

/-!
# What a replacement knows

A replacement under the lock takes the generation out of use that it has read. It must be the one
the manifest shows when the publish script runs (`Thread.Current`). The replacement lock sees to
that: its lifetime is longer than the deadline of a replacement, so of two replacements of a key
whose contexts are alive there is only one. The exception is `refillMissing`, which goes on
without an old manifest when it could not read one (`Action.refillReads`).
-/

namespace IptvProxy.Cache

open Agents GenerationStore Transition

/-- The replacement that has read the manifest. -/
def Pc.job : Pc → Option Job
  | .fetch job => some job
  | .writeChunk job _ _ => some job
  | .stamp job _ => some job
  | .swap job _ _ => some job
  | _ => none

/-- A replacement whose context is alive knows the manifest it is about to replace. -/
def Thread.Current (s : State Unit) (t : Thread Unit) : Prop :=
  ∀ job, t.pc.job = some job → t.ctxDone s.now = false →
    ∀ m, s.redis.loadManifest job.spec.key = some m → job.old = some m

/-- A refill whose context is alive gets an answer to its `loadManifest`. -/
def Action.refillReads (s : State Unit) : Action Unit → Prop
  | .run i o _ => ∀ t job, s.threads[i]? = some t → t.pc = .loadOld job →
      job.operation = .fill → t.ctxDone s.now = false → o.replied = true
  | _ => True

section Job

theorem Pc.job_of_settled {pc : Pc} (h : pc.settled) : pc.job = none := by
  cases pc with
  | returned | schedule | unlock => rfl
  | _ => exact h.elim

theorem Pc.job_cleanupGeneration {key : String} {g n : ℕ} {background : Bool} {next : Pc}
    (h : next.settled) : (Pc.cleanupGeneration key g n background next).job = none := by
  unfold Pc.cleanupGeneration
  split
  · rfl
  · exact job_of_settled h

theorem Pc.job_expireGenerationFallback {key : String} {g n : ℕ} {background : Bool} {next : Pc}
    (h : next.settled) : (Pc.expireGenerationFallback key g n background next).job = none := by
  unfold Pc.expireGenerationFallback
  split
  · rfl
  · exact job_of_settled h

theorem Job.job_staging (job : Job) (staged : Staged) (j : ℕ) :
    (job.staging staged j).job = some job := by
  unfold Job.staging
  split <;> rfl

theorem GetCaller.job_found (caller : GetCaller) (key : String) (m : Manifest) (r : Response) :
    (caller.found key m r).job = none := by
  cases caller <;> rfl

theorem GetCaller.job_notFound (caller : GetCaller) : caller.notFound.job = none := by
  cases caller <;> rfl

theorem Call.job_entry (call : Call) : call.entry.job = none := by
  have h := call.enters
  generalize call.entry = pc at h
  cases h <;> rfl

end Job

variable {s s' : State Unit} {i j : ℕ} {t u : Thread Unit} {o : Outcome}

/-! ## The lock -/

/-- A replacement with a live context is inside its critical section for less than the lock
lives. -/
theorem Thread.Shape.inTime (ht : t.Shape s.now) {job : Job} (hjob : t.pc.job = some job)
    (halive : t.ctxDone s.now = false) : s.now < t.lockedAt + lockTTL := by
  have hd := ht.deadline
  unfold Thread.DeadlineOk at hd
  have hdeadline : ∃ d, t.deadline = some d ∧ d ≤ t.lockedAt + fetchTimeout := by
    cases hpc : t.pc <;> rw [hpc] at hjob hd
    case fetch | writeChunk | stamp | swap => exact hd
    all_goals cases hjob
  obtain ⟨d, hsome, hle⟩ := hdeadline
  have hlt : s.now < d := by
    simp only [Thread.ctxDone, hsome, Option.any_some, Bool.or_eq_false_iff,
      decide_eq_false_iff_not, Nat.not_le] at halive
    exact halive.2
  have htimeout := fetchTimeout_lt_lockTTL
  omega

theorem Pc.holds_of_job {pc : Pc} {job : Job} (h : pc.job = some job) :
    pc.holds = some (job.spec.key, job.opID) := by
  cases pc with
  | fetch | writeChunk | stamp | swap =>
    obtain rfl := Option.some.inj h
    rfl
  | _ => cases h

/-- Two replacements of a key whose contexts are alive are the same. -/
theorem alive_unique (hlock : LeaseLock.Inv lockTTL (lockView s)) (hs : s.Shape)
    (hi : s.threads[i]? = some t) (hj : s.threads[j]? = some u) {job job' : Job}
    (ht : t.pc.job = some job) (hu : u.pc.job = some job') (hkey : job.spec.key = job'.spec.key)
    (hti : t.ctxDone s.now = false) (huj : u.ctxDone s.now = false) : i = j :=
  hlock.exclusive (held_of_pc hi (Pc.holds_of_job ht)) (held_of_pc hj (Pc.holds_of_job hu)) hkey
    ((hs t (List.mem_of_getElem? hi)).inTime ht hti)
    ((hs u (List.mem_of_getElem? hj)).inTime hu huj)

/-! ## Steps -/

theorem ctxDone_of_applied (h : (t.under s.now o).applied = true) : t.ctxDone s.now = false := by
  rw [Thread.under] at h
  split at h
  · cases h
  · next hdone => exact Bool.eq_false_iff.mpr hdone

/-- A manifest is stored that was not stored before only by a publish script of the thread. -/
theorem Ran.manifest (h : Ran s i t o s') {key : String} {m : Manifest}
    (hm : s'.redis.loadManifest key = some m) :
    s.redis.loadManifest key = some m ∨ ∃ job, t.pc.job = some job ∧ job.spec.key = key ∧
      t.ctxDone s.now = false := by
  rw [Redis.loadManifest] at hm
  rcases h.hash with hhash | ⟨job, staged, fetchedAt, hpc, ho, -, hhash⟩ | ⟨k, -, hhash⟩
  · rw [hhash] at hm
    exact .inl hm
  · by_cases hk : key = job.spec.key
    · exact .inr ⟨job, by rw [hpc]; rfl, hk.symm, ctxDone_of_applied ho⟩
    · rw [hhash, Function.update_of_ne hk] at hm
      exact .inl hm
  · rw [hhash] at hm
    by_cases hk : key = k
    · rw [hk, Function.update_self] at hm
      cases hm
    · rw [Function.update_of_ne hk] at hm
      exact .inl hm

/-- What the running thread knows afterwards. -/
theorem Ran.current_self (h : Ran s i t o s') (hi : s.threads[i]? = some t) (hp : t.pc.plain)
    (hread : ∀ job, t.pc = .loadOld job → job.operation = .fill → t.ctxDone s.now = false →
      o.replied = true) (ht : t.Current s) :
    ∃ t', s'.threads[i]? = some t' ∧ t'.Current s' := by
  have hset : ∀ {u : Thread Unit}, s'.threads = s.threads.set i u → u.Current s' →
      ∃ t', s'.threads[i]? = some t' ∧ t'.Current s' := by
    intro u hu hcur
    exact ⟨u, getElem?_of_eq_set hu hi, hcur⟩
  have hnone : ∀ {u : Thread Unit}, s'.threads = s.threads.set i u → u.pc.job = none →
      ∃ t', s'.threads[i]? = some t' ∧ t'.Current s' := by
    intro u hu hjob
    refine hset hu fun job h => ?_
    rw [hjob] at h
    cases h
  cases h with
  | @move pc pc' hpc hm =>
    rw [hpc] at hp
    cases hm with
    | getMissing | getBodyMissing => exact hnone rfl (GetCaller.job_notFound _)
    | getBodyFound | getChunkDone => exact hnone rfl (GetCaller.job_found ..)
    | cleanupFailed | expireFailed =>
      refine hnone rfl ?_
      dsimp only
      split
      · rfl
      · exact Pc.job_of_settled hp
    | @loadOldFill job hop hm =>
      -- a refill goes on only if it was told that there is no entry
      refine hset rfl ?_
      intro _ hjob halive m hstored
      obtain rfl := Option.some.inj hjob
      have hnone : s.redis.loadManifest job.spec.key = none := hm (by
        rw [Thread.under, if_neg (by rw [show t.ctxDone s.now = false from halive]; exact
          Bool.false_ne_true)]
        exact hread job hpc hop halive)
      rw [show s.redis.loadManifest job.spec.key = some m from hstored] at hnone
      cases hnone
    | @loadOld job hop happ =>
      refine hset rfl ?_
      intro _ hjob halive m hstored
      obtain rfl := Option.some.inj hjob
      exact hstored
    | loadOldFailed | fetchFailed => exact hnone rfl (Pc.job_of_settled (Job.settled_failed _ _))
    | writeChunkFailed | swapFailed =>
      exact hnone rfl (Pc.job_cleanupGeneration (Job.settled_failed _ _))
    | unlockFailed => exact hnone rfl (Pc.job_of_settled (Pc.settled_of_final hp))
    | stamp =>
      refine hset rfl ?_
      intro job hjob
      exact ht job (by rw [hpc]; exact hjob)
    | migrateLoadFailed | migrateLoadFound | migrateLoadMissing => exact hp.elim
    | migrateDisabled | duplicateLoadFailed | duplicateLoadNone => exact hp.elim
    | duplicateLoadSome | duplicateDelFailed => exact hp.elim
    | _ => exact hnone rfl rfl
  | unpin hpc _ =>
    rw [hpc] at hp
    refine hnone rfl ?_
    dsimp only
    split
    · exact Pc.job_of_settled (Pc.settled_of_final hp)
    · exact Pc.job_cleanupGeneration (Pc.settled_of_final hp)
  | cleanup hpc _ | expire hpc _ =>
    rw [hpc] at hp
    refine hnone rfl ?_
    dsimp only
    split
    · rfl
    · exact Pc.job_of_settled hp
  | registerMiss =>
    refine ⟨_, getElem?_append_of_some (getElem?_set_of_some hi), fun job h => ?_⟩
    cases h
  | schedule hpc _ =>
    rw [hpc] at hp
    exact hnone rfl (Pc.job_of_settled hp)
  | acquireFailed =>
    exact hnone (State.attempted_setThread ..)
      (Pc.job_of_settled (Pc.settled_of_final (Operation.final_failed ..)))
  | acquired | removeAcquireFailed | removeAcquired =>
    exact hnone (State.attempted_setThread ..) rfl
  | @stage job fresh hpc hsus =>
    refine hset rfl ?_
    intro job' hjob
    exact ht job' (by rw [hpc, ← hjob]; exact (Job.job_staging ..).symm)
  | @writeChunk job staged j hpc happ =>
    refine hset rfl ?_
    intro job' hjob
    refine ht job' ?_
    dsimp only at hjob
    split at hjob
    · rw [hpc, ← hjob]
      exact (Job.job_staging ..).symm
    · -- the error path replaces nothing any more
      rw [Pc.job_cleanupGeneration (Job.settled_failed _ _)] at hjob
      cases hjob
  | swapLost => exact hnone rfl (Pc.job_cleanupGeneration (Job.settled_failed _ _))
  | swapFirst hpc =>
    rw [hpc] at hp
    exact hnone rfl (Pc.job_of_settled (Job.settled_published hp))
  | swapWaits hpc =>
    rw [hpc] at hp
    exact hnone rfl (Pc.job_expireGenerationFallback (Job.settled_published hp))
  | swapClears hpc =>
    rw [hpc] at hp
    exact hnone rfl (Pc.job_cleanupGeneration (Job.settled_published hp))
  | unlock hpc _ =>
    rw [hpc] at hp
    exact hnone rfl (Pc.job_of_settled (Pc.settled_of_final hp))
  | removeWaits => exact hnone rfl (Pc.job_expireGenerationFallback Pc.settled_unlock)
  | removeClears => exact hnone rfl (Pc.job_cleanupGeneration Pc.settled_unlock)
  | migratePublish hpc _ | migrateRegister hpc _ | duplicateForget hpc _ | duplicateDel hpc =>
    rw [hpc] at hp
    exact hp.elim
  | _ => exact hnone rfl rfl

theorem Ran.current (h : Ran s i t o s') (hi : s.threads[i]? = some t)
    (hlock : LeaseLock.Inv lockTTL (Cache.lockView s)) (hs : s.Shape)
    (hread : ∀ job, t.pc = .loadOld job → job.operation = .fill → t.ctxDone s.now = false →
      o.replied = true) (hcur : ∀ t ∈ s.threads, t.Current s) :
    ∀ t ∈ s'.threads, t.Current s' := by
  intro u hu
  obtain ⟨j, hj⟩ := List.mem_iff_getElem?.mp hu
  have hp : t.pc.plain := (hs t (List.mem_of_getElem? hi)).plain
  by_cases hji : j = i
  · subst hji
    obtain ⟨t', ht', hlocal⟩ := h.current_self hi hp hread (hcur t (List.mem_of_getElem? hi))
    rw [ht'] at hj
    obtain rfl := Option.some.inj hj
    exact hlocal
  · rcases h.others hj hji with hold | ⟨spec, hpc⟩
    · intro job hjob halive m hm
      rw [h.now] at halive
      rcases h.manifest hm with hsame | ⟨job', hjob', hkey, halive'⟩
      · exact hcur u (List.mem_of_getElem? hold) job hjob halive m hsame
      · exact absurd (alive_unique hlock hs hold hi hjob hjob' hkey.symm halive halive') hji
    · intro job hjob
      rw [hpc] at hjob
      cases hjob

theorem Steps.current {a : Action Unit} (h : Steps s a s')
    (hlock : LeaseLock.Inv lockTTL (Cache.lockView s)) (hs : s.Shape) (hread : a.refillReads s)
    (hcur : ∀ t ∈ s.threads, t.Current s) : ∀ t ∈ s'.threads, t.Current s' := by
  cases h with
  | @start p call deadline =>
    refine forall_mem_append hcur fun job hjob => ?_
    rw [Call.job_entry] at hjob
    cases hjob
  | run hi h => exact h.current hi hlock hs (fun job => hread _ job hi) hcur
  | fire => exact forall_mem_append hcur fun job hjob => nomatch hjob
  | release hi hpc hl => exact forall_mem_set hcur fun job hjob => nomatch hjob
  | releaseAgain => exact hcur
  | @cancel i t hi hc =>
    refine forall_mem_set hcur fun job _ halive => ?_
    rw [Thread.ctxDone, Bool.true_or] at halive
    cases halive
  | @tick d =>
    intro u hu job hjob halive m hm
    refine hcur u hu job hjob ?_ m hm
    -- a context that is alive later was alive before
    simp only [Thread.ctxDone, Bool.or_eq_false_iff] at halive ⊢
    refine ⟨halive.1, ?_⟩
    have hlater := halive.2
    rcases hdl : u.deadline with _ | dl
    · rfl
    · rw [hdl] at hlater
      simp only [Option.any_some, decide_eq_false_iff_not] at hlater ⊢
      omega
  | restart =>
    intro u hu
    obtain ⟨j, hj⟩ := List.mem_iff_getElem?.mp hu
    obtain ⟨v, -, rfl⟩ := stepRestart_thread hj
    exact fun job hjob => nomatch hjob

/-- Replacements are up to date in every state. -/
theorem current_of_run {ok : State Unit → Action Unit → Prop}
    (hok : ∀ s a, ok s a → a.plain ∧ a.refillReads s) (h : Run step ok init s) :
    ∀ t ∈ s.threads, t.Current s := by
  have hplain : ∀ s a, ok s a → a.plain := fun s a ha => (hok s a ha).1
  induction h with
  | refl =>
    intro t ht
    cases ht
  | tail hrest hn ih =>
    obtain ⟨a, ha, hstep⟩ := hn
    exact (Steps.of_step hstep).current (lockInv hplain hrest) (shape_of_run hplain hrest)
      (hok _ a ha).2 ih

/-- What holds in every state a single manager reaches when no refill misses its manifest. -/
structure Informed (s : State Unit) : Prop where
  /-- the state is sound -/
  sound : Sound s
  /-- the locks are in order -/
  lock : LeaseLock.Inv lockTTL (lockView s)
  /-- replacements are up to date -/
  current : ∀ t ∈ s.threads, t.Current s

theorem informed_of_run {ok : State Unit → Action Unit → Prop}
    (hok : ∀ s a, ok s a → a.atomic ∧ a.refillReads s) (h : Run step ok init s) :
    Informed s where
  sound := sound_of_run (h.mono fun s a ha => (hok s a ha).1)
  lock := lockInv (fun s a ha => (hok s a ha).1.1) h
  current := current_of_run (fun s a ha => ⟨(hok s a ha).1.1, (hok s a ha).2⟩) h

/-- A swap of the store is an informed one. -/
theorem Informed.swap (hs : Informed s) {a : Action Unit} (hl : a.Labelled s (.swap i)) :
    (storeView s).Informed i := by
  cases a with
  | run k o fetched =>
    obtain ⟨t, hk, rfl, halive, job, staged, fetchedAt, hpc⟩ := hl
    intro l key old g pieces n hagent p hp hpos
    have hcur := hs.current t (List.mem_of_getElem? hk)
    rw [storeView_agents hk, hpc] at hagent
    injection Option.some.inj hagent with _ hrole
    injection hrole with hkey hold
    rw [← hold]
    obtain ⟨h, hh, hptr⟩ := Option.bind_eq_some_iff.mp (show (s.redis.hash key).bind _ = _ from hp)
    have hm : s.redis.loadManifest job.spec.key = some h.manifest := by
      rw [hkey, Redis.loadManifest, hh]
      rfl
    rw [Job.pointer, hcur job (by rw [hpc]; rfl) halive _ hm]
    exact hptr
  | _ => cases hl

end IptvProxy.Cache
