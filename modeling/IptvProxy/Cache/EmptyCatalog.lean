import IptvProxy.Cache.Failure

/-!
# Empty catalogs

`replaceWithSpec` rejects a response with no items when the manifest it replaces has some. Both
counts have to be known, and only the manifest that is replaced is looked at. So an empty catalog
never replaces one with items (`empty_catalog_rejected`), but a response whose count is unknown, a
JSON object instead of a list, may come in between (`empty_after_unknown`).
-/

namespace IptvProxy.Cache

open Agents Transition

variable {s s' : State Unit} {i : ℕ} {t : Thread Unit} {o : Outcome} {key : String}

/-- The generation is known to have items. -/
def Manifest.nonempty (m : Manifest) : Prop :=
  m.info.itemCountKnown = true ∧ 0 < m.info.itemCount

/-- The generation is known to have no items. -/
def Manifest.empty (m : Manifest) : Prop :=
  m.info.itemCountKnown = true ∧ m.info.itemCount = 0

/-- The active generation of the key has a known item count. -/
def State.Counted (s : State Unit) (key : String) : Prop :=
  ∀ m, s.redis.loadManifest key = some m → m.info.itemCountKnown = true ∧ 0 ≤ m.info.itemCount

/-- What is staged has passed the guard. -/
def Pc.Checked : Pc → Prop
  | .writeChunk job staged _ => suspiciousEmpty job.old staged.response = false
  | .stamp job staged => suspiciousEmpty job.old staged.response = false
  | .swap job staged _ => suspiciousEmpty job.old staged.response = false
  | _ => True

/-! ## The guard -/

section Checked

theorem Pc.checked_of_settled {pc : Pc} (h : pc.settled) : pc.Checked := by
  cases pc with
  | returned | schedule | unlock => trivial
  | _ => exact h.elim

theorem Pc.checked_cleanupGeneration {g n : ℕ} {background : Bool} {next : Pc}
    (h : next.settled) : (Pc.cleanupGeneration key g n background next).Checked := by
  unfold Pc.cleanupGeneration
  split
  · trivial
  · exact checked_of_settled h

theorem Pc.checked_expireGenerationFallback {g n : ℕ} {background : Bool} {next : Pc}
    (h : next.settled) : (Pc.expireGenerationFallback key g n background next).Checked := by
  unfold Pc.expireGenerationFallback
  split
  · trivial
  · exact checked_of_settled h

theorem Job.checked_staging {job : Job} {staged : Staged}
    (h : suspiciousEmpty job.old staged.response = false) (j : ℕ) :
    (job.staging staged j).Checked := by
  unfold Job.staging
  split <;> exact h

theorem Moves.checked {pc pc' : Pc} (h : Moves s t o pc pc') (hp : pc.plain)
    (hpc : pc.Checked) : pc'.Checked := by
  cases h with
  | @getMissing key caller | @getBodyMissing key m caller => cases caller <;> trivial
  | @getBodyFound key m caller | @getChunkDone key m g buffer j caller => cases caller <;> trivial
  | cleanupFailed | expireFailed =>
    split
    · trivial
    · exact Pc.checked_of_settled hp
  | loadOldFailed | fetchFailed => exact Pc.checked_of_settled (Job.settled_failed _ _)
  | writeChunkFailed | swapFailed => exact Pc.checked_cleanupGeneration (Job.settled_failed _ _)
  | unlockFailed => exact Pc.checked_of_settled (Pc.settled_of_final hp)
  | stamp => exact hpc
  | migrateLoadFound | migrateLoadMissing | duplicateLoadSome => exact hp.elim
  | _ => trivial

theorem Ran.checked (h : Ran s i t o s') (hi : s.threads[i]? = some t) (hp : t.pc.plain)
    (hall : ∀ t ∈ s.threads, t.pc.Checked) : ∀ t ∈ s'.threads, t.pc.Checked := by
  have ht : t.pc.Checked := hall t (List.mem_of_getElem? hi)
  have hset : ∀ {u : Thread Unit}, s'.threads = s.threads.set i u → u.pc.Checked →
      ∀ v ∈ s'.threads, v.pc.Checked := by
    intro u hu hpc
    rw [hu]
    exact forall_mem_set hall hpc
  cases h with
  | move hpc hm =>
    rw [hpc] at hp ht
    exact hset rfl (hm.checked hp ht)
  | unpin hpc _ =>
    rw [hpc] at hp
    refine hset rfl ?_
    dsimp only
    split
    · exact Pc.checked_of_settled (Pc.settled_of_final hp)
    · exact Pc.checked_cleanupGeneration (Pc.settled_of_final hp)
  | cleanup hpc _ | expire hpc _ =>
    rw [hpc] at hp
    refine hset rfl ?_
    dsimp only
    split
    · trivial
    · exact Pc.checked_of_settled hp
  | registerMiss => exact forall_mem_append (forall_mem_set hall trivial) trivial
  | schedule hpc _ =>
    rw [hpc] at hp
    exact hset rfl (Pc.checked_of_settled hp)
  | acquireFailed =>
    exact hset (State.attempted_setThread ..)
      (Pc.checked_of_settled (Pc.settled_of_final (Operation.final_failed ..)))
  | acquired | removeAcquireFailed | removeAcquired =>
    exact hset (State.attempted_setThread ..) trivial
  | stage hpc hs => exact hset rfl (Job.checked_staging hs 0)
  | writeChunk hpc _ =>
    rw [hpc] at ht
    refine hset rfl ?_
    dsimp only
    split
    · exact Job.checked_staging ht _
    · exact Pc.checked_cleanupGeneration (Job.settled_failed _ _)
  | swapLost => exact hset rfl (Pc.checked_cleanupGeneration (Job.settled_failed _ _))
  | swapFirst hpc =>
    rw [hpc] at hp
    exact hset rfl (Pc.checked_of_settled (Job.settled_published hp))
  | swapWaits hpc =>
    rw [hpc] at hp
    exact hset rfl (Pc.checked_expireGenerationFallback (Job.settled_published hp))
  | swapClears hpc =>
    rw [hpc] at hp
    exact hset rfl (Pc.checked_cleanupGeneration (Job.settled_published hp))
  | unlock hpc _ =>
    rw [hpc] at hp
    exact hset rfl (Pc.checked_of_settled (Pc.settled_of_final hp))
  | removeWaits => exact hset rfl (Pc.checked_expireGenerationFallback Pc.settled_unlock)
  | removeClears => exact hset rfl (Pc.checked_cleanupGeneration Pc.settled_unlock)
  | migratePublish hpc _ | migrateRegister hpc _ | duplicateForget hpc _ | duplicateDel hpc =>
    rw [hpc] at hp
    exact hp.elim
  | _ => exact hset rfl trivial

theorem Steps.checked {a : Action Unit} (h : Steps s a s') (hs : s.Shape)
    (hall : ∀ t ∈ s.threads, t.pc.Checked) : ∀ t ∈ s'.threads, t.pc.Checked := by
  cases h with
  | @start p call deadline =>
    refine forall_mem_append hall ?_
    have h := call.enters
    generalize call.entry = pc at h
    cases h <;> trivial
  | @run i _ _ t _ hi h => exact h.checked hi (hs t (List.mem_of_getElem? hi)).plain hall
  | fire => exact forall_mem_append hall trivial
  | release => exact forall_mem_set hall trivial
  | releaseAgain | tick => exact hall
  | @cancel i t hi _ => exact forall_mem_set hall (hall t (List.mem_of_getElem? hi))
  | restart =>
    intro u hu
    obtain ⟨j, hj⟩ := List.mem_iff_getElem?.mp hu
    obtain ⟨v, -, rfl⟩ := stepRestart_thread hj
    trivial

end Checked

/-- A response that passes the guard against a generation with items is not empty. -/
theorem not_empty_of_checked {m : Manifest} {job : Job} {staged : Staged} (fetchedAt : ℕ)
    (hold : job.old = some m) (hm : m.nonempty)
    (hchecked : suspiciousEmpty job.old staged.response = false) :
    ¬ (job.manifest staged fetchedAt).empty := by
  rintro ⟨hknown, hzero⟩
  rw [hold] at hchecked
  change (m.info.itemCountKnown && decide (0 < m.info.itemCount) &&
    staged.response.itemCountKnown && decide (staged.response.itemCount = 0)) = false at hchecked
  rw [hm.1, decide_eq_true hm.2, show staged.response.itemCountKnown = true from hknown,
    decide_eq_true (show staged.response.itemCount = 0 from hzero)] at hchecked
  cases hchecked

/-- A generation with items is not replaced by one without. -/
theorem Steps.not_empty {a : Action Unit} (h : Steps s a s') (hs : s.Shape)
    (hcur : ∀ t ∈ s.threads, t.Current s) (hchecked : ∀ t ∈ s.threads, t.pc.Checked)
    (hkeeps : a.keeps key s) {m : Manifest} (hm : s.redis.loadManifest key = some m)
    (hpos : m.nonempty) : ∃ m', s'.redis.loadManifest key = some m' ∧ ¬ m'.empty := by
  have hsame : s'.redis.hash key = s.redis.hash key →
      ∃ m', s'.redis.loadManifest key = some m' ∧ ¬ m'.empty := by
    intro heq
    refine ⟨m, by rw [Redis.loadManifest, heq]; exact hm, ?_⟩
    rintro ⟨-, hzero⟩
    have hlt := hpos.2
    omega
  cases h with
  | @run i o fetched t _ hi h =>
    have hmem := List.mem_of_getElem? hi
    by_cases heq : s'.redis.hash key = s.redis.hash key
    · exact hsame heq
    · rcases h.entry (hs t hmem).plain (hkeeps t hi) with
        heq' | ⟨job, staged, fetchedAt, hpc, hkey, hhash, halive⟩
      · exact absurd heq' heq
      · refine ⟨job.manifest staged fetchedAt, by rw [Redis.loadManifest, hhash]; rfl, ?_⟩
        have hold : job.old = some m :=
          hcur t hmem job (by rw [hpc]; rfl) halive m (by rw [hkey]; exact hm)
        have hck := hchecked t hmem
        rw [hpc] at hck
        exact not_empty_of_checked fetchedAt hold hpos hck
  | _ => exact hsame rfl

/-- **An empty catalog does not replace one with items.** In a run in which nobody removes the
entry, once a generation with a known positive item count is active, a generation with a known
item count of zero does not become active before one with an unknown count has been. -/
theorem empty_catalog_rejected {m : Manifest}
    (hreach : Run step (fun s a => a.plain ∧ a.refillReads s) init s)
    (hm : s.redis.loadManifest key = some m) (hpos : m.nonempty)
    (h : Run step (fun s a => a.plain ∧ a.refillReads s ∧ a.keeps key s ∧ s.Counted key) s s') :
    ∃ m', s'.redis.loadManifest key = some m' ∧ ¬ m'.empty := by
  have hchecked : ∀ {s : State Unit}, Run step (fun s a => a.plain ∧ a.refillReads s) init s →
      ∀ t ∈ s.threads, t.pc.Checked := by
    intro s hrun
    induction hrun with
    | refl => exact fun t ht => nomatch ht
    | tail hrest hn ih =>
      obtain ⟨a, -, hstep⟩ := hn
      exact (Steps.of_step hstep).checked (shape_of_run (fun _ _ ha => ha.1) hrest) ih
  have hboth : Run step (fun s a => a.plain ∧ a.refillReads s) init s' ∧
      ∃ m', s'.redis.loadManifest key = some m' ∧ ¬ m'.empty := by
    induction h with
    | refl =>
      refine ⟨hreach, m, hm, fun hzero => ?_⟩
      have hlt := hpos.2
      have hzero := hzero.2
      omega
    | tail _ hn ih =>
      obtain ⟨a, ⟨hplain, hread, hkeeps, hcounted⟩, hstep⟩ := hn
      obtain ⟨hrun, m', hm', hne⟩ := ih
      have hpos' : m'.nonempty := by
        obtain ⟨hknown, hle⟩ := hcounted m' hm'
        refine ⟨hknown, ?_⟩
        by_contra hnot
        exact hne ⟨hknown, by omega⟩
      exact ⟨hrun.tail ⟨a, ⟨hplain, hread⟩, hstep⟩,
        (Steps.of_step hstep).not_empty (shape_of_run (fun _ _ ha => ha.1) hrun)
          (current_of_run (fun _ _ ha => ha) hrun) (hchecked hrun) hkeeps hm' hpos'⟩
  exact hboth.2

/-! ## An unknown count in between -/

/-- A list of one item, a JSON object, and an empty list. -/
def oneItem : Response := ⟨200, "application/json", [91], 1, true⟩

/-- A response whose items cannot be counted. -/
def noList : Response := ⟨200, "application/json", [123], 0, false⟩

/-- A list without items. -/
def noItem : Response := ⟨200, "application/json", [91], 0, true⟩

/-- `Warm` publishes a list of one item. -/
def warmOne : List (Action Unit) :=
  [.start () (.warm sampleSpec) none, .run 0 .ok none, .run 0 .ok none, .run 0 .ok none,
    .run 0 .ok (some oneItem), .run 0 .ok none, .run 0 .ok none, .run 0 .ok none,
    .run 0 .ok none, .run 0 .ok none]

/-- A second `Warm` gets what cannot be counted, a third one an empty list. -/
def warmUnknownThenNone : List (Action Unit) :=
  [.start () (.warm sampleSpec) none, .run 1 .ok none, .run 1 .ok none, .run 1 .ok none,
    .run 1 .ok (some noList), .run 1 .ok none, .run 1 .ok none, .run 1 .ok none,
    .run 1 .ok none, .run 1 .ok none, .run 1 .ok none,
    .start () (.warm sampleSpec) none, .run 2 .ok none, .run 2 .ok none, .run 2 .ok none,
    .run 2 .ok (some noItem), .run 2 .ok none, .run 2 .ok none, .run 2 .ok none,
    .run 2 .ok none, .run 2 .ok none, .run 2 .ok none]

/-- A caller of `Warm`, or a section that gets its reply. -/
def Action.warms : Action Unit → Prop
  | .start _ call _ => ∃ spec, call = .warm spec
  | .run _ o _ => o = .ok
  | _ => False

/-- An empty list becomes active after a list of one item. -/
theorem empty_after_unknown :
    ∃ s s' : State Unit, ∃ m m', Run step (fun _ a => a.warms) init s ∧
      s.redis.loadManifest sampleSpec.key = some m ∧ m.nonempty ∧
      Run step (fun _ a => a.warms) s s' ∧
      s'.redis.loadManifest sampleSpec.key = some m' ∧ m'.empty := by
  have h : (exec step (init : State Unit) warmOne).map (fun s =>
      ((s.redis.loadManifest "iptv:cache:p:e").map fun m =>
        (m.info.itemCountKnown, m.info.itemCount),
        (exec step s warmUnknownThenNone).map fun s =>
          (s.redis.loadManifest "iptv:cache:p:e").map fun m =>
            (m.info.itemCountKnown, m.info.itemCount))) =
      some (some (true, 1), some (some (true, 0))) := by
    decide +kernel
  have hone : ∀ a ∈ warmOne, ∀ _ : State Unit, a.warms := by
    simp [warmOne, Action.warms]
  have htwo : ∀ a ∈ warmUnknownThenNone, ∀ _ : State Unit, a.warms := by
    simp [warmUnknownThenNone, Action.warms]
  obtain ⟨s, hs, hobs⟩ := Option.map_eq_some_iff.mp h
  obtain ⟨hfirst, hsecond⟩ := Prod.mk.inj hobs
  obtain ⟨m, hm, hcount⟩ := Option.map_eq_some_iff.mp hfirst
  obtain ⟨hknown, hitems⟩ := Prod.mk.inj hcount
  obtain ⟨s', hs', hobs'⟩ := Option.map_eq_some_iff.mp hsecond
  obtain ⟨m', hm', hcount'⟩ := Option.map_eq_some_iff.mp hobs'
  obtain ⟨hknown', hitems'⟩ := Prod.mk.inj hcount'
  exact ⟨s, s', m, m', Run.of_exec hone hs, hm, ⟨hknown, by omega⟩, Run.of_exec htwo hs', hm',
    hknown', hitems'⟩

/-- A second `Warm` gets an empty list, and the list of one item stays. -/
def warmNone : List (Action Unit) :=
  [.start () (.warm sampleSpec) none, .run 1 .ok none, .run 1 .ok none, .run 1 .ok none,
    .run 1 .ok (some noItem), .run 1 .ok none]

/-- The action is one of that run, no entry is about to change, and the active one is counted. -/
def countedStep (s : State Unit) (a : Action Unit) : Bool :=
  warmNone.contains a && s.threads.all (fun t => !t.pc.changesEntry) &&
    (s.redis.loadManifest sampleSpec.key).all fun m =>
      m.info.itemCountKnown && decide (0 ≤ m.info.itemCount)

theorem counted_of_countedStep {a : Action Unit} (h : countedStep s a = true) :
    a.plain ∧ a.refillReads s ∧ a.keeps sampleSpec.key s ∧ s.Counted sampleSpec.key := by
  have hactions : ∀ a ∈ warmNone, a.plain ∧ a.warms := by
    simp [warmNone, Action.plain, Call.plain, Action.warms]
  obtain ⟨h, hcount⟩ := Bool.and_eq_true_iff.mp h
  obtain ⟨hmem, hpcs⟩ := Bool.and_eq_true_iff.mp h
  obtain ⟨hplain, hwarms⟩ := hactions a (List.contains_iff_mem.mp hmem)
  have hcounted : s.Counted sampleSpec.key := by
    intro m hm
    rw [hm, Option.all_some, Bool.and_eq_true_iff, decide_eq_true_eq] at hcount
    exact hcount
  cases a with
  | run i o fetched =>
    obtain rfl : o = .ok := hwarms
    refine ⟨hplain, fun _ _ _ _ _ _ => rfl, fun t hi opID m hpc => ?_, hcounted⟩
    have hfalse := List.all_eq_true.mp hpcs t (List.mem_of_getElem? hi)
    rw [hpc] at hfalse
    cases hfalse
  | _ => exact ⟨hplain, trivial, trivial, hcounted⟩

theorem empty_catalog_rejected_sample :
    ∃ s s' : State Unit, ∃ t m', Run step (fun s a => a.plain ∧ a.refillReads s) init s ∧
      Run step (fun s a => a.plain ∧ a.refillReads s ∧ a.keeps sampleSpec.key s ∧
        s.Counted sampleSpec.key) s s' ∧
      s'.threads[1]? = some t ∧ t.pc = .returned (.error .suspiciousEmptyReplacement) ∧
      s'.redis.loadManifest sampleSpec.key = some m' ∧ ¬ m'.empty := by
  have h : (exec step (init : State Unit) warmOne).map (fun s =>
      ((s.redis.loadManifest "iptv:cache:p:e").map fun m =>
        (m.info.itemCountKnown, m.info.itemCount),
        (exec (fun s a => if countedStep s a then step s a else none) s warmNone).map fun s =>
          s.threads[1]?.map Thread.pc)) =
      some (some (true, 1), some (some (.returned (.error .suspiciousEmptyReplacement)))) := by
    decide +kernel
  have hfaultless : ∀ a ∈ warmOne, ∀ s : State Unit, a.plain ∧ a.refillReads s := by
    simp [warmOne, Action.plain, Call.plain, Action.refillReads, Outcome.replied]
  have hok : ∀ (s : State Unit) (a : Action Unit), countedStep s a = true →
      a.plain ∧ a.refillReads s ∧ a.keeps sampleSpec.key s ∧ s.Counted sampleSpec.key :=
    fun _ _ => counted_of_countedStep
  obtain ⟨s, hrun, hobs⟩ := Run.of_eval hfaultless h
  obtain ⟨hfirst, hsecond⟩ := Prod.mk.inj hobs
  obtain ⟨m, hm, hcount⟩ := Option.map_eq_some_iff.mp hfirst
  obtain ⟨hknown, hitems⟩ := Prod.mk.inj hcount
  obtain ⟨s', hrun', hthread⟩ := Run.of_tested hok hsecond
  obtain ⟨t, ht, hpc⟩ := Option.map_eq_some_iff.mp hthread
  obtain ⟨m', hm', hne⟩ := empty_catalog_rejected hrun hm ⟨hknown, by omega⟩ hrun'
  exact ⟨s, s', t, m', hrun, hrun', ht, hpc, hm', hne⟩

end IptvProxy.Cache
