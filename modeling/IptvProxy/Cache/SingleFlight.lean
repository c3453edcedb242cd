import IptvProxy.Cache.Lock

/-!
# One replacement per key

The replacement lock of a key admits one operation at a time, in any number of processes, as long
as nobody stays between `acquire` and `release` for longer than `fetchTimeout`. Releasing late is
harmless without that condition. A refill that reads a stored entry under the lock ends without
calling `Fetch`.
-/

namespace IptvProxy.Cache

open Agents LeaseLock Transition

variable {P : Type} [DecidableEq P]

/-- Time does not pass beyond `fetchTimeout` after an acquired lock that is not released yet. -/
def Action.bounded (s : State P) : Action P → Prop
  | .tick d => ∀ t ∈ s.threads, t.pc.holds ≠ none → s.now + d ≤ t.lockedAt + fetchTimeout
  | _ => True

/-- No `MigrateLegacy`, and every operation is bounded by `fetchTimeout`. -/
def SingleFlightOk (s : State P) (a : Action P) : Prop := a.plain ∧ a.bounded s

/-- No critical section is older than `fetchTimeout`. -/
def InTime (s : State P) : Prop := NotOlder (s.now - fetchTimeout) (lockView s)

theorem Steps.inTime {s s' : State P} {a : Action P} (h : Steps s a s') (hs : s.Shape)
    (ha : a.bounded s) (ht : InTime s) : InTime s' := by
  have hrun := NotOlder.run ht (Nat.sub_le _ _) (h.lockView hs)
  cases h with
  | @tick d =>
    intro j h hj
    obtain ⟨t, hjt, hheld⟩ := Option.map_eq_some_iff.mp (List.getElem?_map ▸ hj)
    have hholds : t.pc.holds ≠ none := by
      intro hnone
      rw [Thread.held, hnone] at hheld
      cases hheld
    have hle := ha t (List.mem_of_getElem? hjt) hholds
    obtain ⟨k, -, rfl⟩ := Option.map_eq_some_iff.mp hheld
    exact Nat.sub_le_iff_le_add.mpr hle
  | run _ h =>
    unfold InTime
    rw [h.now]
    exact hrun
  | _ => exact hrun

/-- In a bounded run every critical section is in its time. -/
theorem inTime_of_run {s : State P} (h : Run step SingleFlightOk init s) : InTime s := by
  have hboth : s.Shape ∧ InTime s := by
    refine h.invariant (I := fun s => s.Shape ∧ InTime s) (fun s a s' hs ha hstep => ?_)
      ⟨init_shape, fun j h hj => by cases hj⟩
    have hsteps := Steps.of_step hstep
    exact ⟨hsteps.shape ha.1 hs.1, hsteps.inTime hs.1 ha.2 hs.2⟩
  exact hboth.2

omit [DecidableEq P] in
theorem held_of_pc {s : State P} {i : ℕ} {t : Thread P} {key : String} {opID : ℕ}
    (hi : s.threads[i]? = some t) (hpc : t.pc.holds = some (key, opID)) :
    (lockView s).agents[i]? = some (some ⟨key, opID, t.lockedAt⟩) := by
  change (s.threads.map Thread.held)[i]? = _
  rw [List.getElem?_map, hi, Option.map_some, Thread.held, hpc]
  rfl

/-- Two operations of a bounded run between `acquire` and `release` of one key are the same. -/
theorem holds_unique {s : State P} (h : Run step SingleFlightOk init s) {i j : ℕ}
    {t u : Thread P} {key : String} {op op' : ℕ} (hi : s.threads[i]? = some t)
    (hj : s.threads[j]? = some u) (ht : t.pc.holds = some (key, op))
    (hu : u.pc.holds = some (key, op')) : i = j := by
  have hinv : Inv lockTTL (lockView s) := lockInv (fun _ _ ha => ha.1) h
  have htime := inTime_of_run h
  have hlt : ∀ {k : ℕ} {v : Thread P} {x : ℕ}, s.threads[k]? = some v →
      v.pc.holds = some (key, x) → (lockView s).now < v.lockedAt + lockTTL := by
    intro k v x hk hv
    have hle := Nat.sub_le_iff_le_add.mp (htime k _ (held_of_pc hk hv))
    exact Nat.lt_of_le_of_lt hle (Nat.add_lt_add_left fetchTimeout_lt_lockTTL _)
  exact hinv.exclusive (held_of_pc hi ht) (held_of_pc hj hu) rfl (hlt hi ht) (hlt hj hu)

/-! ## After a refill has seen an entry -/

/-- A thread that has nothing left to do but to release its lock. -/
def Pc.leaving (key : String) (opID : ℕ) (pc : Pc) : Prop :=
  pc = .unlock key opID (.returned .ok) ∨ pc = .returned .ok ∨ pc = .crashed

theorem Ran.leaving {s s' : State P} {i j : ℕ} {t u : Thread P} {o : Outcome} {key : String}
    {opID : ℕ} (h : Ran s j u o s') (hj : s.threads[j]? = some u)
    (hi : s.threads[i]? = some t) (ht : t.pc.leaving key opID) :
    ∃ t', s'.threads[i]? = some t' ∧ t'.pc.leaving key opID := by
  by_cases hij : i = j
  · subst hij
    rw [hj] at hi
    obtain rfl := Option.some.inj hi
    rcases ht with hpc | hpc | hpc
    · exact ⟨_, h.unlocked hj hpc, .inr (.inl rfl)⟩
    · exact (h.not_returned hpc).elim
    · exact (h.not_crashed hpc).elim
  · exact ⟨t, h.other hij hi, ht⟩

theorem Steps.leaving {s s' : State P} {a : Action P} {i : ℕ} {t : Thread P} {key : String}
    {opID : ℕ} (h : Steps s a s') (hi : s.threads[i]? = some t) (ht : t.pc.leaving key opID) :
    ∃ t', s'.threads[i]? = some t' ∧ t'.pc.leaving key opID := by
  cases h with
  | start | fire => exact ⟨t, getElem?_append_of_some hi, ht⟩
  | run hj h => exact h.leaving hj hi ht
  | @release j u r hit key' g hj hpc _ =>
    have hij : i ≠ j := by
      rintro rfl
      rw [hj] at hi
      obtain rfl := Option.some.inj hi
      rcases ht with h | h | h <;> rw [hpc] at h <;> cases h
    exact ⟨t, by
      change (s.threads.set j _)[i]? = _
      rw [List.getElem?_set_ne hij.symm]
      exact hi, ht⟩
  | releaseAgain | tick => exact ⟨t, hi, ht⟩
  | @cancel j u hj _ =>
    by_cases hij : i = j
    · subst hij
      rw [hj] at hi
      obtain rfl := Option.some.inj hi
      exact ⟨_, getElem?_set_of_some hj, ht⟩
    · refine ⟨t, ?_, ht⟩
      change (s.threads.set j _)[i]? = _
      rw [List.getElem?_set_ne (Ne.symm hij)]
      exact hi
  | @restart p =>
    refine ⟨_, (List.getElem?_map ..).trans (congrArg (Option.map _) hi), ?_⟩
    dsimp only
    split
    · exact .inr (.inr rfl)
    · exact ht

/-- A refill that reads a stored entry under the lock goes to its `release`. -/
theorem Ran.fill_stops {s s' : State P} {i : ℕ} {t : Thread P} {o : Outcome} {job : Job}
    (h : Ran s i t o s') (hi : s.threads[i]? = some t) (hpc : t.pc = .loadOld job)
    (hop : job.operation = .fill) (ho : (t.under s.now o).replied = true)
    (hm : (s.redis.loadManifest job.spec.key).isSome = true) :
    ∃ t', s'.threads[i]? = some t' ∧ t'.pc.leaving job.spec.key job.opID := by
  cases h with
  | move hpc' hmove =>
    rw [hpc] at hpc'
    subst hpc'
    cases hmove with
    | loadOldStop => exact ⟨_, getElem?_set_of_some hi, .inl rfl⟩
    | loadOldFill _ hnone =>
      rw [hnone ho] at hm
      cases hm
    | loadOldFailed hne => exact absurd hop hne
    | loadOld hne => exact absurd hop hne
  | _ hpc' =>
    rw [hpc] at hpc'
    cases hpc'

/-! ## The protocol -/

/-- **Single flight**, for any number of processes. In runs whose operations are bounded by
`fetchTimeout`, at most one operation is between `acquire` and `release` of a key, so at most one
`Fetch` for the key is running. In all runs, a release leaves the lock of another owner alone,
and a refill whose re-check reads a stored entry never calls `Fetch`. -/
theorem singleFlight :
    (∀ s : State P, Run step SingleFlightOk init s →
      ∀ (i j : ℕ) (t u : Thread P) (key : String) (op op' : ℕ), s.threads[i]? = some t → s.threads[j]? = some u →
        t.pc.holds = some (key, op) → u.pc.holds = some (key, op') → i = j) ∧
    (∀ s : State P, Run step SingleFlightOk init s →
      ∀ (i j : ℕ) (t u : Thread P) (job job' : Job), s.threads[i]? = some t → s.threads[j]? = some u →
        t.pc = .fetch job → u.pc = .fetch job' → job.spec.key = job'.spec.key → i = j) ∧
    (∀ s s' : State P, Run step (fun _ a => a.plain) init s →
      ∀ (i j : ℕ) (t u : Thread P) (key : String) (op op' : ℕ) (next : Pc) (o : Outcome)
        (fetched : Option Response) (e : Expiring ℕ), i ≠ j → s.threads[i]? = some t →
        s.threads[j]? = some u → t.pc = .unlock key op next →
        u.pc.holds = some (key, op') → s.redis.locks key = some e → e.value = op' →
        step s (.run i o fetched) = some s' → s'.redis.locks key = some e) ∧
    (∀ s s₁ s₂ : State P, Run step (fun _ a => a.plain) init s →
      ∀ (i : ℕ) (t : Thread P) (job : Job) (o : Outcome) (fetched : Option Response),
        s.threads[i]? = some t → t.pc = .loadOld job →
        job.operation = .fill → (t.under s.now o).replied = true →
        (s.redis.loadManifest job.spec.key).isSome = true →
        step s (.run i o fetched) = some s₁ → Run step (fun _ a => a.plain) s₁ s₂ →
        ∃ t', s₂.threads[i]? = some t' ∧ ∀ job', t'.pc ≠ .fetch job') := by
  refine ⟨?_, ?_, ?_, ?_⟩
  · intro s h i j t u key op op' hi hj ht hu
    exact holds_unique h hi hj ht hu
  · intro s h i j t u job job' hi hj ht hu hkey
    have ht' : t.pc.holds = some (job.spec.key, job.opID) := by
      rw [ht]
      rfl
    have hu' : u.pc.holds = some (job.spec.key, job'.opID) := by
      rw [hu, hkey]
      rfl
    exact holds_unique h hi hj ht' hu'
  · intro s s' h i j t u key op op' next o fetched e hij hi hj ht hu he hval hstep
    have hinv : Inv lockTTL (lockView s) := lockInv (fun _ _ ha => ha) h
    have hne : e.value ≠ op := by
      rw [hval]
      intro heq
      have ht' : t.pc.holds = some (key, op) := by
        rw [ht]
        rfl
      exact hij (hinv.distinct (held_of_pc hi ht') (held_of_pc hj hu) heq.symm)
    cases Steps.of_step hstep with
    | run hi' h =>
      rw [hi] at hi'
      obtain rfl := Option.some.inj hi'
      cases h with
      | move _ _ => exact he
      | unlock hpc _ =>
        rw [ht] at hpc
        cases hpc
        exact Inv.leave_other (s := lockView s) (h := ⟨key, op, t.lockedAt⟩) he hne
      | _ hpc =>
        rw [ht] at hpc
        cases hpc
  · intro s s₁ s₂ _ i t job o fetched hi ht hop ho hm hstep hrun
    have hstart : ∃ t', s₁.threads[i]? = some t' ∧ t'.pc.leaving job.spec.key job.opID := by
      cases Steps.of_step hstep with
      | run hi' h =>
        rw [hi] at hi'
        obtain rfl := Option.some.inj hi'
        exact h.fill_stops hi ht hop ho hm
    have hend := hrun.invariant
      (I := fun s => ∃ t', s.threads[i]? = some t' ∧ t'.pc.leaving job.spec.key job.opID)
      (fun s a s' ⟨t', ht', hl⟩ _ hstep => (Steps.of_step hstep).leaving ht' hl) hstart
    obtain ⟨t', ht', hl⟩ := hend
    refine ⟨t', ht', fun job' hpc => ?_⟩
    rcases hl with h | h | h <;> rw [hpc] at h <;> cases h

/-! ## A refill after a removal -/

/-- A catalog request with an hour of caching. -/
def sampleSpec : Spec where
  key := "iptv:cache:p:e"
  ttl := hour
  descriptor := ⟨"p", "e", "", []⟩
  hasFetch := true

/-- A response of one byte. -/
def sampleResponse : Response := ⟨200, "application/json", [91], 0, false⟩

/-- A request misses and starts a refill, and `Warm` publishes before the refill has the lock. -/
def warmBeforeRefill : List (Action Unit) :=
  [.start () (.getOrFetch sampleSpec) none, .run 0 .ok none, .run 0 .ok none, .run 1 .ok none,
    .start () (.warm sampleSpec) none, .run 2 .ok none, .run 2 .ok none, .run 2 .ok none,
    .run 2 .ok (some sampleResponse), .run 2 .ok none, .run 2 .ok none, .run 2 .ok none,
    .run 2 .ok none, .run 2 .ok none]

/-- `Remove` deletes the entry, and the refill continues. -/
def removeThenRefill : List (Action Unit) :=
  [.start () (.remove "iptv:cache:p:e") none, .run 3 .ok none, .run 3 .ok none, .run 3 .ok none,
    .run 3 .ok none, .run 3 .ok none, .run 1 .ok none, .run 1 .ok none]

theorem singleFlightOk_warmBeforeRefill :
    ∀ a ∈ warmBeforeRefill, ∀ s : State Unit, SingleFlightOk s a := by
  simp [warmBeforeRefill, SingleFlightOk, Action.plain, Call.plain, Action.bounded]

theorem singleFlightOk_removeThenRefill :
    ∀ a ∈ removeThenRefill, ∀ s : State Unit, SingleFlightOk s a := by
  simp [removeThenRefill, SingleFlightOk, Action.plain, Call.plain, Action.bounded]

/-- What `Warm` has published is no entry any more when `Remove` has deleted it: a refill that
acquires the lock after both calls `Fetch`. -/
theorem refill_fetches_after_remove :
    ∃ s₁ s₂ : State Unit, Run step SingleFlightOk init s₁ ∧
      s₁.published.map Publication.key = ["iptv:cache:p:e"] ∧
      s₁.threads[1]?.map Thread.pc = some (.acquire sampleSpec .fill) ∧
      Run step SingleFlightOk s₁ s₂ ∧
      s₂.threads[1]?.map Thread.pc = some (.fetch ⟨sampleSpec, .fill, 4, none⟩) := by
  have h₁ : (exec step (init : State Unit) warmBeforeRefill).map (fun s =>
      (s.published.map Publication.key, s.threads[1]?.map Thread.pc)) =
      some (["iptv:cache:p:e"], some (.acquire sampleSpec .fill)) := by decide +kernel
  have h₂ : (exec step (init : State Unit) (warmBeforeRefill ++ removeThenRefill)).map (fun s =>
      s.threads[1]?.map Thread.pc) =
      some (some (.fetch ⟨sampleSpec, .fill, 4, none⟩)) := by decide +kernel
  obtain ⟨s₁, hs₁, hobs⟩ := Option.map_eq_some_iff.mp h₁
  rw [exec_append, hs₁, Option.bind_some] at h₂
  obtain ⟨s₂, hrun, hfetch⟩ := Run.of_eval singleFlightOk_removeThenRefill h₂
  exact ⟨s₁, s₂, Run.of_exec singleFlightOk_warmBeforeRefill hs₁, congrArg Prod.fst hobs,
    congrArg Prod.snd hobs, hrun, hfetch⟩

/-- A refill that finds the entry `Warm` has published. -/
theorem singleFlight_sample :
    ∃ (s s₁ : State Unit) (t' : Thread Unit), Run step (fun _ a => a.plain) init s ∧
      step s (.run 1 .ok none) = some s₁ ∧ s₁.threads[1]? = some t' ∧
      ∀ job', t'.pc ≠ .fetch job' := by
  have h : (exec step (init : State Unit) (warmBeforeRefill ++ [.run 1 .ok none])).map (fun s =>
      (s.threads[1]?.map fun t => (t.pc, (t.under s.now .ok).replied),
        (s.redis.loadManifest "iptv:cache:p:e").isSome, (step s (.run 1 .ok none)).isSome)) =
      some (some (.loadOld ⟨sampleSpec, .fill, 3, none⟩, true), true, true) := by decide +kernel
  have hplain : ∀ a ∈ warmBeforeRefill ++ [.run 1 .ok none], ∀ s : State Unit, a.plain := by
    intro a ha s
    rcases List.mem_append.mp ha with ha | ha
    · exact (singleFlightOk_warmBeforeRefill a ha s).1
    · obtain rfl := List.mem_singleton.mp ha
      trivial
  obtain ⟨s, hs, hobs⟩ := Run.of_eval hplain h
  simp only [Prod.mk.injEq] at hobs
  obtain ⟨hthread, hstored, hstep⟩ := hobs
  obtain ⟨t, ht, htobs⟩ := Option.map_eq_some_iff.mp hthread
  obtain ⟨hpc, hrep⟩ := Prod.mk.inj htobs
  obtain ⟨s₁, hs₁⟩ := Option.isSome_iff_exists.mp hstep
  obtain ⟨t', ht', hno⟩ :=
    singleFlight.2.2.2 s s₁ s₁ hs 1 t _ .ok none ht hpc rfl hrep hstored hs₁ .refl
  exact ⟨s, s₁, t', hs, hs₁, ht', hno⟩

end IptvProxy.Cache
