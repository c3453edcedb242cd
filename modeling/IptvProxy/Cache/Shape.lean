import IptvProxy.Lib.Agents
import IptvProxy.Cache.StepCases

/-!
# The shape of operations

Facts about a thread that follow from its program point alone: which program points may follow
a loop or a deferred call (`Pc.settled`, `Pc.final`), which lease a reader holds
(`Thread.LeaseOk`) and how long a replacement may run (`Thread.DeadlineOk`). They hold in runs
without `MigrateLegacy`, which replaces without the lock and under its caller's context.
-/

namespace IptvProxy.Cache

open Agents

variable {P : Type} [DecidableEq P]

/-! ## Program points -/

/-- Only timers are left to arm. -/
def Pc.final : Pc → Prop
  | .returned _ => True
  | .schedule _ _ next => next.final
  | _ => False

/-- Only timers are left to arm and one lock is left to release. -/
def Pc.settled : Pc → Prop
  | .returned _ => True
  | .schedule _ _ next => next.settled
  | .unlock _ _ next => next.final
  | _ => False

/-- Not `MigrateLegacy`. -/
def Operation.plain : Operation → Prop
  | .migrate _ => False
  | _ => True

/-- Not `MigrateLegacy`. -/
def GetCaller.plain : GetCaller → Prop
  | .getOrFetch _ => True
  | .migrate _ => False

/-- A program point of an operation other than `MigrateLegacy`. -/
def Pc.plain : Pc → Prop
  | .get _ caller => caller.plain
  | .getBody _ _ caller => caller.plain
  | .getChunk _ _ _ _ _ caller => caller.plain
  | .releaseReader _ _ next => next.final
  | .scheduleFromMeta _ _ next => next.final
  | .registerLoad _ next => next.final
  | .register _ _ next => next.final
  | .unlock _ _ next => next.final
  | .cleanup _ _ _ _ _ next => next.settled
  | .expire _ _ _ _ _ next => next.settled
  | .schedule _ _ next => next.settled
  | .acquire _ operation => operation.plain
  | .loadOld job => job.operation.plain
  | .fetch job => job.operation.plain
  | .writeChunk job _ _ => job.operation.plain
  | .stamp job _ => job.operation.plain
  | .swap job _ _ => job.operation.plain
  | .migrateLoad _ _ => False
  | .migratePublish _ _ _ => False
  | .migrateRegister _ _ => False
  | .duplicateLoad _ => False
  | .duplicateForget _ => False
  | .duplicateDel _ => False
  | _ => True

/-- Not a call of `MigrateLegacy`. -/
def Call.plain : Call → Prop
  | .migrateLegacy _ _ => False
  | _ => True

theorem Pc.settled_of_final {pc : Pc} (h : pc.final) : pc.settled := by
  induction pc with
  | returned => trivial
  | schedule _ _ next ih => exact ih h
  | _ => exact h.elim

theorem Pc.settled_unlock {key : String} {opID : ℕ} {r : Result} :
    (Pc.unlock key opID (.returned r)).settled :=
  trivial

theorem Pc.plain_of_settled {pc : Pc} (h : pc.settled) : pc.plain := by
  cases pc with
  | returned | schedule | unlock => exact h
  | _ => exact h.elim

theorem Operation.final_failed {operation : Operation} (spec : Spec) (e : Error) :
    (operation.failed spec e).final := by
  cases operation <;> trivial

theorem Job.settled_failed (job : Job) (e : Error) :
    (job.failed e).settled := by
  unfold Job.failed
  split
  · trivial
  · exact Operation.final_failed ..

/-- What follows a publication outside `MigrateLegacy`. -/
theorem Job.published_of_plain {job : Job} (h : job.operation.plain) :
    job.published = .schedule job.spec (thresholdDelay job.spec.ttl)
      (.unlock job.spec.key job.opID (.returned .ok)) := by
  rw [Job.published]
  split
  · next hop =>
    rw [hop] at h
    exact h.elim
  · rfl

theorem Job.settled_published {job : Job} (h : job.operation.plain) : job.published.settled := by
  rw [Job.published_of_plain h]
  trivial

/-! ## Threads -/

/-- The lease of a thread that is reading. -/
def Thread.LeaseOk (t : Thread P) : Prop :=
  match t.pc with
  | .get _ _ => t.lease = none
  | .getBody _ _ _ => t.lease = none
  | .getChunk key _ g _ _ _ => t.lease = some (key, g)
  | .releaseReader key g _ => t.lease = some (key, g)
  | _ => True

/-- The deadline of a thread that is replacing: `fetchTimeout` after it acquired the lock, or
earlier. -/
def Thread.DeadlineOk (now : ℕ) (t : Thread P) : Prop :=
  match t.pc with
  | .acquire _ _ => ∃ d, t.deadline = some d ∧ d ≤ now + fetchTimeout
  | .loadOld _ => ∃ d, t.deadline = some d ∧ d ≤ t.lockedAt + fetchTimeout
  | .fetch _ => ∃ d, t.deadline = some d ∧ d ≤ t.lockedAt + fetchTimeout
  | .writeChunk _ _ _ => ∃ d, t.deadline = some d ∧ d ≤ t.lockedAt + fetchTimeout
  | .stamp _ _ => ∃ d, t.deadline = some d ∧ d ≤ t.lockedAt + fetchTimeout
  | .swap _ _ _ => ∃ d, t.deadline = some d ∧ d ≤ t.lockedAt + fetchTimeout
  | _ => True

omit [DecidableEq P] in
/-- Time only runs towards the deadline. -/
theorem Thread.DeadlineOk.mono {now now' : ℕ} {t : Thread P} (h : t.DeadlineOk now)
    (hle : now ≤ now') : t.DeadlineOk now' := by
  unfold Thread.DeadlineOk at h ⊢
  cases hpc : t.pc <;> rw [hpc] at h
  case acquire =>
    obtain ⟨d, hd, hdle⟩ := h
    exact ⟨d, hd, Nat.le_trans hdle (Nat.add_le_add_right hle _)⟩
  all_goals exact h

/-- A thread as every operation but `MigrateLegacy` makes it. -/
structure Thread.Shape (now : ℕ) (t : Thread P) : Prop where
  /-- its program point -/
  plain : t.pc.plain
  /-- its lease -/
  lease : t.LeaseOk
  /-- its deadline -/
  deadline : t.DeadlineOk now

omit [DecidableEq P] in
/-- A thread that neither reads nor replaces. -/
theorem Thread.Shape.of_settled {now : ℕ} {t : Thread P} (h : t.pc.settled) : t.Shape now := by
  refine ⟨Pc.plain_of_settled h, ?_, ?_⟩
  · unfold Thread.LeaseOk
    split <;> first | trivial | (next hpc => rw [hpc] at h; exact h.elim)
  · unfold Thread.DeadlineOk
    split <;> first | trivial | (next hpc => rw [hpc] at h; exact h.elim)

section Goto

variable {now : ℕ} {t : Thread P} {key : String} {g n : ℕ} {background : Bool} {next : Pc}

omit [DecidableEq P]

theorem Thread.shape_settled (t : Thread P) (h : next.settled) :
    Thread.Shape now { t with pc := next } :=
  .of_settled h

theorem Thread.shape_cleanup (t : Thread P) (i : ℕ) (h : next.settled) :
    Thread.Shape now { t with pc := .cleanup key g n i background next } :=
  ⟨h, trivial, trivial⟩

theorem Thread.shape_expire (t : Thread P) (i : ℕ) (h : next.settled) :
    Thread.Shape now { t with pc := .expire key g n i background next } :=
  ⟨h, trivial, trivial⟩

theorem Thread.shape_cleanupGeneration (t : Thread P) (h : next.settled) :
    Thread.Shape now { t with pc := .cleanupGeneration key g n background next } := by
  unfold Pc.cleanupGeneration
  split
  · exact t.shape_cleanup 0 h
  · exact t.shape_settled h

theorem Thread.shape_expireGenerationFallback (t : Thread P) (h : next.settled) :
    Thread.Shape now { t with pc := .expireGenerationFallback key g n background next } := by
  unfold Pc.expireGenerationFallback
  split
  · exact t.shape_expire 0 h
  · exact t.shape_settled h

theorem Thread.shape_staging {job : Job} (hop : job.operation.plain) (staged : Staged) (i : ℕ)
    (hd : ∃ d, t.deadline = some d ∧ d ≤ t.lockedAt + fetchTimeout) :
    Thread.Shape now { t with pc := job.staging staged i } := by
  unfold Job.staging
  split
  · exact ⟨hop, trivial, hd⟩
  · exact ⟨hop, trivial, hd⟩

theorem Thread.shape_acquire (t : Thread P) (spec : Spec) {operation : Operation}
    (hop : operation.plain) :
    Thread.Shape now { t.withTimeout now with pc := .acquire spec operation } := by
  refine ⟨hop, trivial, ?_⟩
  rcases hd : t.deadline with _ | d
  · exact ⟨now + fetchTimeout, by simp [Thread.withTimeout, hd], Nat.le_refl _⟩
  · exact ⟨min d (now + fetchTimeout), by simp [Thread.withTimeout, hd], Nat.min_le_right ..⟩

/-- What a thread does after `get`. -/
theorem Thread.shape_found {caller : GetCaller} (t : Thread P) (hc : caller.plain) (key : String)
    (m : Manifest) (r : Response) :
    Thread.Shape now { t with pc := caller.found key m r } := by
  cases caller with
  | getOrFetch => exact ⟨trivial, trivial, trivial⟩
  | migrate => exact hc.elim

theorem Thread.shape_notFound {caller : GetCaller} (t : Thread P) :
    Thread.Shape now { t with pc := caller.notFound } := by
  cases caller <;> exact ⟨trivial, trivial, trivial⟩

end Goto

omit [DecidableEq P] in
theorem Moves.shape {s : State P} {t : Thread P} {o : Outcome} {pc pc' : Pc}
    (h : Moves s t o pc pc') (hpc : t.pc = pc) (ht : t.Shape s.now) :
    Thread.Shape s.now { t with pc := pc' } := by
  obtain ⟨hp, hl, hd⟩ := ht
  unfold Thread.LeaseOk at hl
  unfold Thread.DeadlineOk at hd
  rw [hpc] at hp hl hd
  cases h with
  | getMissing | getBodyMissing => exact t.shape_notFound
  | getBodyFound | getChunkDone => exact t.shape_found hp ..
  | getLegacy | getChunkNext | getChunkFailed => exact ⟨by first | exact hp | trivial, hl, trivial⟩
  | cleanupFailed =>
    split
    · exact t.shape_cleanup _ hp
    · exact t.shape_settled hp
  | expireFailed =>
    split
    · exact t.shape_expire _ hp
    · exact t.shape_settled hp
  | loadOldFailed | fetchFailed => exact t.shape_settled (Job.settled_failed _ _)
  | writeChunkFailed | swapFailed => exact t.shape_cleanupGeneration (Job.settled_failed _ _)
  | loadOldFill | loadOld | stamp => exact ⟨hp, trivial, hd⟩
  | scheduleFromMeta => exact .of_settled (Pc.settled_of_final hp)
  | registerLoadFound => exact ⟨hp, trivial, trivial⟩
  | unlockFailed => exact t.shape_settled (Pc.settled_of_final hp)
  | bypass | getFailed | getBodyFailed | registerLoadFailed | replaceNowMissing | loadOldStop |
    removeLoadFailed => exact ⟨trivial, trivial, trivial⟩
  | _ => exact hp.elim

/-- Every thread of the state has its shape. -/
def State.Shape (s : State P) : Prop := ∀ t ∈ s.threads, t.Shape s.now

omit [DecidableEq P] in
theorem State.Shape.of_eq {s s' : State P} (hnow : s'.now = s.now) {ts : List (Thread P)}
    (hthreads : s'.threads = ts) (h : ∀ t ∈ ts, t.Shape s.now) : s'.Shape := by
  rw [State.Shape, hnow, hthreads]
  exact h

theorem Ran.shape {s s' : State P} {i : ℕ} {t : Thread P} {o : Outcome} (h : Ran s i t o s')
    (hi : s.threads[i]? = some t) (hs : s.Shape) : s'.Shape := by
  have ht : t.Shape s.now := hs t (List.mem_of_getElem? hi)
  obtain ⟨hp, hl, hd⟩ := id ht
  unfold Thread.LeaseOk at hl
  unfold Thread.DeadlineOk at hd
  have hset : ∀ {u : Thread P}, u.Shape s.now → ∀ t' ∈ s.threads.set i u, t'.Shape s.now :=
    fun hu => forall_mem_set hs hu
  have hattempt : ∀ {key : String} {applied : Bool} {u : Thread P}, u.Shape s.now →
      ((s.attempted key applied).setThread i u).Shape :=
    fun hu => .of_eq (s.attempted_now ..) (s.attempted_setThread ..) (hset hu)
  cases h with
  | move hpc hm => exact hset (hm.shape hpc ht)
  | pin hpc _ _ _ =>
    rw [hpc] at hp
    exact hset ⟨hp, rfl, trivial⟩
  | unpin hpc _ =>
    rw [hpc] at hp
    refine hset ?_
    split
    · exact Thread.shape_settled { t with lease := none } (Pc.settled_of_final hp)
    · exact Thread.shape_cleanupGeneration { t with lease := none } (Pc.settled_of_final hp)
  | cleanup hpc _ =>
    rw [hpc] at hp
    refine hset ?_
    split
    · exact t.shape_cleanup _ hp
    · exact t.shape_settled hp
  | expire hpc _ =>
    rw [hpc] at hp
    refine hset ?_
    split
    · exact t.shape_expire _ hp
    · exact t.shape_settled hp
  | registerHit _ _ => exact hset ⟨trivial, trivial, trivial⟩
  | registerMiss _ _ =>
    exact forall_mem_append (hset ⟨trivial, trivial, trivial⟩) ⟨trivial, trivial, trivial⟩
  | schedule hpc _ =>
    rw [hpc] at hp
    exact hset (t.shape_settled hp)
  | refill _ => exact hset (t.shape_acquire _ trivial)
  | register hpc _ =>
    rw [hpc] at hp
    exact hset ⟨hp, trivial, trivial⟩
  | warm _ _ => exact hset (t.shape_acquire _ trivial)
  | purge _ _ => exact hset (t.shape_acquire _ trivial)
  | @acquireFailed spec operation e applied hpc _ =>
    have hfin : (operation.failed spec e).settled :=
      Pc.settled_of_final (Operation.final_failed spec e)
    exact hattempt (t.shape_settled hfin)
  | acquired hpc _ _ =>
    rw [hpc] at hp hd
    exact hattempt ⟨hp, trivial, hd⟩
  | stage hpc _ =>
    rw [hpc] at hp hd
    exact hset (t.shape_staging hp _ _ hd)
  | writeChunk hpc _ =>
    rw [hpc] at hp hd
    refine hset ?_
    split
    · exact t.shape_staging hp _ _ hd
    · exact t.shape_cleanupGeneration (Job.settled_failed _ _)
  | swapLost _ _ _ _ => exact hset (t.shape_cleanupGeneration (Job.settled_failed _ _))
  | swapFirst hpc _ _ _ _ =>
    rw [hpc] at hp
    exact hset (t.shape_settled (Job.settled_published hp))
  | swapWaits hpc _ _ _ _ _ =>
    rw [hpc] at hp
    exact hset (t.shape_expireGenerationFallback (Job.settled_published hp))
  | swapClears hpc _ _ _ _ _ =>
    rw [hpc] at hp
    exact hset (t.shape_cleanupGeneration (Job.settled_published hp))
  | unlock hpc _ =>
    rw [hpc] at hp
    exact hset (t.shape_settled (Pc.settled_of_final hp))
  | removeAcquireFailed _ _ =>
    exact hattempt ⟨trivial, trivial, trivial⟩
  | removeAcquired _ _ _ =>
    exact hattempt ⟨trivial, trivial, trivial⟩
  | removeLoad _ _ => exact hset ⟨trivial, trivial, trivial⟩
  | removeDelFailed _ _ _ | removeDelLost _ _ _ => exact hset ⟨trivial, trivial, trivial⟩
  | removeEmpty _ _ _ _ => exact hset ⟨trivial, trivial, trivial⟩
  | removeWaits _ _ _ _ _ => exact hset (t.shape_expireGenerationFallback Pc.settled_unlock)
  | removeClears _ _ _ _ _ => exact hset (t.shape_cleanupGeneration Pc.settled_unlock)
  | migratePublish hpc _ | migrateRegister hpc _ | duplicateForget hpc _ | duplicateDel hpc =>
    rw [hpc] at hp
    exact hp.elim

omit [DecidableEq P] in
/-- A new operation has its shape. -/
theorem Call.shape_entry {call : Call} (hc : call.plain) {now : ℕ} {t : Thread P}
    (hl : t.lease = none) : Thread.Shape now { t with pc := call.entry } := by
  have h := call.enters
  generalize call.entry = pc at h
  cases h with
  | get => exact ⟨trivial, hl, trivial⟩
  | done | bypass | register | warm | purge | remove => exact ⟨trivial, trivial, trivial⟩
  | migrateRegister | migrate => exact hc.elim

/-- No step starts a `MigrateLegacy`. -/
def Action.plain : Action P → Prop
  | .start _ call _ => call.plain
  | _ => True

theorem Steps.shape {s s' : State P} {a : Action P} (h : Steps s a s') (ha : a.plain)
    (hs : s.Shape) : s'.Shape := by
  cases h with
  | start =>
    exact forall_mem_append hs
      (Call.shape_entry (t := ⟨_, _, _, _, _, _, none, _, .crashed⟩) ha rfl)
  | run hi h => exact h.shape hi hs
  | fire _ _ _ =>
    exact forall_mem_append hs ⟨trivial, trivial, s.now + fetchTimeout, rfl, Nat.le_refl _⟩
  | release hi hpc hl =>
    have ht := hs _ (List.mem_of_getElem? hi)
    exact forall_mem_set hs ⟨trivial, hl, trivial⟩
  | releaseAgain => exact hs
  | cancel hi _ =>
    have ht := hs _ (List.mem_of_getElem? hi)
    exact forall_mem_set hs ⟨ht.plain, ht.lease, ht.deadline⟩
  | @tick d =>
    intro t ht
    obtain ⟨hp, hl, hd⟩ := hs t ht
    exact ⟨hp, hl, hd.mono (Nat.le_add_right _ _)⟩
  | @restart p =>
    intro t ht
    obtain ⟨u, hu, rfl⟩ := List.mem_map.mp ht
    split
    · exact ⟨trivial, trivial, trivial⟩
    · exact hs u hu

omit [DecidableEq P] in
/-- An empty system has its shape. -/
theorem init_shape : (init : State P).Shape := by
  intro t ht
  cases ht

end IptvProxy.Cache
