import IptvProxy.Cache.Current

/-!
# Leases and chunks

Two results about a single manager, both from the ownership invariants of the store.

A generation that a client reads is not deleted before the last `Release`, and then it is deleted
if its manifest is gone (`lease_safe`). A refill that cannot read the manifest under the lock
replaces a generation without retiring it, so the second half needs `Action.refillReads`.

Without faults nothing is left behind (`rest_is_exact`): at rest, the stored chunks are those the
manifests name. `Remove` deletes chunks under the context of its caller, so the context must stay
alive until it has (`Action.removesInTime`).
-/

namespace IptvProxy.Cache

open Agents GenerationStore Transition

variable {s s' : State Unit} {i : ℕ} {t : Thread Unit}

/-! ## Leases -/

/-- What a client that reads a generation can rely on. -/
structure LeaseSafe (s : State Unit) : Prop where
  /-- nobody deletes a chunk of a generation that is read -/
  kept : ∀ t ∈ s.threads, ∀ key g, t.lease = some (key, g) →
    ∀ u ∈ s.threads, ∀ n j background next, u.pc ≠ .cleanup key g n j background next
  /-- a release that is not the last deletes nothing -/
  earlier : ∀ (i j : ℕ) (t u : Thread Unit) key g next o fetched s', j ≠ i →
    s.threads[i]? = some t → s.threads[j]? = some u → t.pc = .releaseReader key g next →
    u.lease = some (key, g) → step s (.run i o fetched) = some s' →
      s'.threads[i]?.map Thread.pc = some next
  /-- the last release of a generation that has lost its manifest deletes all its chunks -/
  last : ∀ (i : ℕ) (t : Thread Unit) key g next o fetched s', s.threads[i]? = some t →
    t.pc = .releaseReader key g next →
    (∀ (j : ℕ) (u : Thread Unit), j ≠ i → s.threads[j]? = some u → u.lease ≠ some (key, g)) →
    (∀ m, s.redis.loadManifest key = some m → m.pinned ≠ some g) →
    step s (.run i o fetched) = some s' →
      ∃ p ∈ s.published, p.key = key ∧ p.manifest.generation = some g ∧
        0 < chunkCount p.body ∧
        s'.threads[i]?.map Thread.pc = some (.cleanup key g (chunkCount p.body) 0 true next)
  /-- any other `Release` than the first of a response does nothing -/
  once : ∀ (i : ℕ) (t : Thread Unit), s.threads[i]? = some t → t.lease = none →
    step s (.release i) = some s

theorem readers_eq (hs : Sound s) (l : LeaseKey) :
    (s.mgr ()).readers l = s.threads.countP fun t => decide (t.lease = some l) := by
  have h := hs.store.readers l
  rw [leases, show (storeView s).agents = s.threads.map Thread.agent from rfl,
    List.countP_map] at h
  exact h

theorem shows_iff {key : String} {g : ℕ} :
    (storeView s).Shows key g ↔ ∃ m, s.redis.loadManifest key = some m ∧ m.pinned = some g := by
  constructor
  · rintro ⟨p, hp, rfl, hpos⟩
    obtain ⟨h, hh, hptr⟩ := Option.bind_eq_some_iff.mp hp
    obtain ⟨g, hg, rfl⟩ := Option.map_eq_some_iff.mp hptr
    refine ⟨h.manifest, Option.map_eq_some_iff.mpr ⟨h, hh, rfl⟩, ?_⟩
    rw [Manifest.pinned, if_pos hpos, hg]
  · rintro ⟨m, hm, hg⟩
    obtain ⟨h, hh, rfl⟩ := Option.map_eq_some_iff.mp hm
    unfold Manifest.pinned at hg
    split at hg
    · next hpos =>
      refine ⟨⟨g, h.manifest.chunkCount, h.manifest⟩, ?_, rfl, hpos⟩
      change (s.redis.hash key).bind _ = _
      rw [hh, Option.bind_some, Manifest.pointer, hg]
      rfl
    · cases hg

/-- The section of `releaseGenerationReader`. -/
theorem pc_of_release {key : String} {g : ℕ} {next : Pc} {o : Outcome} {fetched : Option Response}
    (hi : s.threads[i]? = some t) (hpc : t.pc = .releaseReader key g next)
    (hstep : step s (.run i o fetched) = some s') :
    s'.threads[i]?.map Thread.pc = some (match ((s.mgr ()).unpin (key, g)).2 with
      | none => next
      | some r => .cleanupGeneration r.key r.generation r.chunkCount true next) := by
  cases Steps.of_step hstep with
  | run hi' h =>
    rw [hi] at hi'
    obtain rfl := Option.some.inj hi'
    cases h with
    | move hpc' hm =>
      rw [hpc] at hpc'
      subst hpc'
      cases hm
    | unpin hpc' _ =>
      rw [hpc] at hpc'
      cases hpc'
      change ((s.threads.set i _)[i]?).map Thread.pc = _
      rw [getElem?_set_of_some hi]
      rfl
    | _ hpc' =>
      rw [hpc] at hpc'
      cases hpc'

theorem leaseOwned_of_run {ok : State Unit → Action Unit → Prop}
    (hok : ∀ s a, ok s a → a.atomic ∧ a.refillReads s) (h : Run step ok init s) :
    LeaseOwned (storeView s) ∧ RetiredNonempty (storeView s) := by
  induction h with
  | refl => exact ⟨fun l hpos => absurd hpos (Nat.lt_irrefl 0), fun l r hr => nomatch hr⟩
  | @tail s s' hrest hn ih =>
    obtain ⟨a, ha, hstep⟩ := hn
    have hinf := informed_of_run hok hrest
    rcases (Steps.of_step hstep).view (hok s a ha).1 hinf.sound.shape hinf.sound.localOk with
      heq | ⟨l, hl, hlabel⟩
    · rw [heq]
      exact ih
    · refine ⟨ih.1.step hinf.sound.store ?_ hl, ih.2.step hl⟩
      cases l with
      | swap => exact hinf.swap hlabel
      | _ => trivial

/-- **Readers are safe** in every run of a single manager in which commands that return an error
had no effect and no refill fails to read the manifest under its lock. -/
theorem lease_safe (h : Run step (fun s a => a.atomic ∧ a.refillReads s) init s) :
    LeaseSafe s := by
  have hok : ∀ (s : State Unit) (a : Action Unit), (a.atomic ∧ a.refillReads s) →
      a.atomic ∧ a.refillReads s := fun _ _ => id
  have hs : Sound s := (informed_of_run hok h).sound
  obtain ⟨howned, hnonempty⟩ := leaseOwned_of_run hok h
  refine ⟨?_, ?_, ?_, ?_⟩
  · intro t ht key g hl u hu n j background next hpc
    obtain ⟨i, hi⟩ := List.mem_iff_getElem?.mp ht
    obtain ⟨k, hk⟩ := List.mem_iff_getElem?.mp hu
    have hrole := hs.store.role (storeView_agents hk)
    rw [hpc] at hrole
    exact hs.store.no_lease hrole.2.2 (storeView_agents hi) hl
  · intro i j t u key g next o fetched s' hji hi hj hpc hl hstep
    have hlease : t.lease = some (key, g) := by
      have := (hs.shape t (List.mem_of_getElem? hi)).lease
      rwa [Thread.LeaseOk, hpc] at this
    have hmore : 1 < (s.mgr ()).readers (key, g) := by
      rw [readers_eq hs]
      exact one_lt_countP hi hj hji.symm (by simp [hlease]) (by simp [hl])
    rw [pc_of_release hi hpc hstep, Manager.unpin, if_pos hmore]
  · intro i t key g next o fetched s' hi hpc hothers hgone hstep
    have hlease : t.lease = some (key, g) := by
      have := (hs.shape t (List.mem_of_getElem? hi)).lease
      rwa [Thread.LeaseOk, hpc] at this
    have hcount : (s.mgr ()).readers (key, g) = 1 := by
      rw [readers_eq hs]
      exact countP_eq_one hi (by simp [hlease]) fun j u hji hj => by simp [hothers j u hji hj]
    have hretired : ((storeView s).retired (key, g)).isSome = true := by
      rcases howned (key, g) (by
        change 0 < (s.mgr ()).readers (key, g)
        omega) with hshows | hret
      · obtain ⟨m, hm, hg⟩ := shows_iff.mp hshows
        exact absurd hg (hgone m hm)
      · exact hret
    obtain ⟨entry, hentry⟩ := Option.isSome_iff_exists.mp hretired
    have hpos := hnonempty _ _ hentry
    obtain ⟨-, -, v, hv, hkey, hgen, rfl⟩ := hs.store.retired hentry
    obtain ⟨r, hr, hre⟩ := Option.map_eq_some_iff.mp hentry
    obtain ⟨p, hp, rfl⟩ := List.mem_map.mp hv
    obtain ⟨g', hg'⟩ := Option.isSome_iff_exists.mp (hs.published p hp).1
    have hgen' : p.manifest.generation = some g := by
      rw [Publication.version, hg'] at hgen
      rw [hg']
      exact congrArg some hgen
    have hlen : p.version.pieces.length = chunkCount p.body := length_bodyPieces _
    dsimp only at hpos
    rw [hlen] at hpos
    refine ⟨p, hp, hkey, hgen', hpos, ?_⟩
    rw [pc_of_release hi hpc hstep, Manager.unpin, if_neg (by omega), hr]
    obtain ⟨hrk, hrg, hrc⟩ := Retired.mk.inj hre
    dsimp only
    rw [hrk, hrg, hrc, hlen, Pc.cleanupGeneration, if_pos hpos]
  · intro i t hi hl
    simp only [step, stepRelease, hi]
    split
    · next hsome => rw [hl] at hsome; cases hsome
    · rfl

/-- A client reads what `Warm` has published; a refill that was waiting for the lock fails to
read the manifest and publishes again; the client releases. -/
def refillMissesManifest : List (Action Unit) :=
  warmBeforeRefill ++ [.start () (.getOrFetch sampleSpec) none, .run 3 .ok none, .run 3 .ok none,
    .run 3 .ok none, .run 3 .ok none, .run 3 .ok none, .run 1 .ok none, .run 1 .fail none,
    .run 1 .ok (some sampleResponse), .run 1 .ok none, .run 1 .ok none, .run 1 .ok none,
    .release 3]

/-- The last release of the replaced generation deletes nothing. -/
theorem release_after_missed_manifest :
    ∃ s : State Unit, Run step (fun _ a => a.atomic ∧ a.steady) init s ∧ ¬ LeaseSafe s := by
  have hobs : (exec step (init : State Unit) refillMissesManifest).map (fun s =>
      (s.threads[3]?.map Thread.pc, s.threads.map Thread.lease)) =
      some (some (.releaseReader "iptv:cache:p:e" 2 (.returned (.response sampleResponse true))),
        [none, none, none, some ("iptv:cache:p:e", 2)]) := by
    decide +kernel
  have hend : (exec step (init : State Unit) refillMissesManifest).map (fun s =>
      ((s.redis.loadManifest "iptv:cache:p:e").map Manifest.pinned,
        (step s (.run 3 .ok none)).map fun s => s.threads[3]?.map Thread.pc)) =
      some (some (some 4), some (some (.returned (.response sampleResponse true)))) := by
    decide +kernel
  have hok : ∀ a ∈ refillMissesManifest, ∀ _ : State Unit, a.atomic ∧ a.steady := by
    simp [refillMissesManifest, warmBeforeRefill, Action.atomic, Action.plain, Action.steady,
      Call.plain]
  obtain ⟨s, hs, hthreads⟩ := Option.map_eq_some_iff.mp hobs
  rw [hs, Option.map_some] at hend
  obtain ⟨hthread, hleases⟩ := Prod.mk.inj hthreads
  obtain ⟨hactive, hstep⟩ := Prod.mk.inj (Option.some.inj hend)
  obtain ⟨t, ht, hpc⟩ := Option.map_eq_some_iff.mp hthread
  obtain ⟨s', hs', hnext⟩ := Option.map_eq_some_iff.mp hstep
  refine ⟨s, Run.of_exec hok hs, fun hsafe => ?_⟩
  have hothers : ∀ (j : ℕ) (u : Thread Unit), j ≠ 3 → s.threads[j]? = some u →
      u.lease ≠ some ("iptv:cache:p:e", 2) := by
    intro j u hj hju hl
    have hlease : (s.threads.map Thread.lease)[j]? = some (some ("iptv:cache:p:e", 2)) := by
      rw [List.getElem?_map, hju, ← hl]
      rfl
    rw [hleases] at hlease
    rcases j with _ | _ | _ | _ | j
    · cases hlease
    · cases hlease
    · cases hlease
    · exact hj rfl
    · cases hlease
  have hgone : ∀ m, s.redis.loadManifest "iptv:cache:p:e" = some m → m.pinned ≠ some 2 := by
    intro m hm
    rw [hm] at hactive
    rw [Option.some.inj hactive]
    decide
  obtain ⟨p, -, -, -, -, hlast⟩ := hsafe.last 3 t _ 2 _ .ok none s' ht hpc hothers hgone hs'
  rw [hnext] at hlast
  cases Option.some.inj hlast

/-- A client reads what `Warm` has published. -/
theorem lease_safe_sample :
    ∃ s : State Unit, s.threads[1]?.map Thread.lease = some (some (sampleSpec.key, 2)) ∧
      LeaseSafe s := by
  have h : (exec step (init : State Unit) warmThenHit).map (fun s =>
      s.threads[1]?.map Thread.lease) = some (some (some (sampleSpec.key, 2))) := by
    decide +kernel
  have hok : ∀ a ∈ warmThenHit, ∀ s : State Unit, a.atomic ∧ a.refillReads s := by
    simp [warmThenHit, Action.atomic, Action.plain, Action.refillReads, Call.plain,
      Outcome.replied]
  obtain ⟨s, hrun, hlease⟩ := Run.of_eval hok h
  exact ⟨s, hlease, lease_safe hrun⟩

/-! ## Nothing is left behind -/

/-- Redis executes every command it gets. -/
def Action.faultless (a : Action Unit) : Prop := ∀ i o fetched, a = .run i o fetched → o = .ok

/-- The context of a `Remove` is alive when it deletes a chunk. -/
def Action.removesInTime (s : State Unit) : Action Unit → Prop
  | .run i _ _ => ∀ t key g n j next, s.threads[i]? = some t →
      t.pc = .cleanup key g n j false next → t.ctxDone s.now = false
  | _ => True

/-- No operation is in progress, and every response has been released. -/
def AtRest (s : State Unit) : Prop :=
  ∀ t ∈ s.threads, (∃ r, t.pc = .returned r) ∧ t.lease = none

/-- The books are right. -/
structure Exact (s : State Unit) : Prop where
  /-- a generation has as many readers as there are leases on it -/
  readers : ∀ l, (s.mgr ()).readers l = s.threads.countP fun t => decide (t.lease = some l)
  /-- a retired generation has readers -/
  retired : ∀ l r, (s.mgr ()).retired l = some r → 0 < (s.mgr ()).readers l
  /-- at rest nothing is read or retired -/
  memory : AtRest s → ∀ l, (s.mgr ()).readers l = 0 ∧ (s.mgr ()).retired l = none
  /-- at rest the stored chunks are those of the manifests -/
  chunks : AtRest s → ∀ x, s.redis.chunks.has s.now x = true ↔
    ∃ m, s.redis.loadManifest x.key = some m ∧ m.generation = some x.generation ∧
      x.index < m.chunkCount

theorem Action.faultless.atomic {a : Action Unit} (h : a.faultless) (hp : a.plain) :
    a.atomic := by
  refine ⟨hp, fun i o fetched ha => ?_⟩
  rw [h i o fetched ha]
  decide

theorem Action.faultless.refillReads {a : Action Unit} (h : a.faultless) (s : State Unit) :
    a.refillReads s := by
  cases a with
  | run i o fetched =>
    intro t job _ _ _ _
    rw [h i o fetched rfl]
    rfl
  | _ => trivial

/-- A run without faults in which every `Remove` is in time. -/
abbrev CleanRun (s : State Unit) : Prop :=
  Run step (fun s a => a.plain ∧ a.steady ∧ a.faultless ∧ a.removesInTime s) init s

theorem chunkOwned_of_run (h : CleanRun s) : ChunkOwned (storeView s) := by
  have hok : ∀ (s : State Unit) (a : Action Unit),
      (a.plain ∧ a.steady ∧ a.faultless ∧ a.removesInTime s) → a.atomic ∧ a.refillReads s :=
    fun s a ha => ⟨ha.2.2.1.atomic ha.1, ha.2.2.1.refillReads s⟩
  induction h with
  | refl => exact fun x e he => nomatch he
  | @tail s s' hrest hn ih =>
    obtain ⟨a, ha, hstep⟩ := hn
    have hinf := informed_of_run hok hrest
    rcases (Steps.of_step hstep).view (hok s a ha).1 hinf.sound.shape hinf.sound.localOk with
      heq | ⟨l, hl, hlabel⟩
    · rw [heq]
      exact ih
    · refine ih.step hinf.sound.store ?_ hl
      obtain ⟨-, hsteady, hfault, htime⟩ := ha
      cases l with
      | swap => exact hinf.swap hlabel
      | clean j applied =>
        cases a with
        | run i o fetched =>
          obtain ⟨t, hi, -, key, g, n, k, background, next, hpc, happ⟩ := hlabel
          obtain rfl := hfault i o fetched rfl
          change applied = true
          rw [happ]
          cases background with
          | true => rfl
          | false =>
            have halive := htime t key g n k next hi hpc
            rw [if_neg Bool.false_ne_true, Thread.under, halive, if_neg Bool.false_ne_true]
            rfl
        | _ => cases hlabel
      | crash =>
        cases a with
        | restart p => exact hsteady
        | run => exact hlabel.elim fun _ h => h.2
        | _ => cases hlabel
      | _ => trivial

/-- **The books are right** in every run of a single manager without faults in which no `Remove`
loses its context while it deletes chunks. -/
theorem rest_is_exact (h : CleanRun s) : Exact s := by
  have hs : Sound s := sound_of_run (h.mono fun s a ha => ha.2.2.1.atomic ha.1)
  have howned := chunkOwned_of_run h
  have hretired : ∀ l r, (s.mgr ()).retired l = some r → 0 < (s.mgr ()).readers l := by
    intro l r hr
    exact (hs.store.retired (l := l) (r := r.entry) (by
      change ((s.mgr ()).retired l).map _ = _
      rw [hr]
      rfl)).1
  have hzero : AtRest s → ∀ l, (s.mgr ()).readers l = 0 := by
    intro hrest l
    rw [readers_eq hs, countP_eq_zero_of_getElem?]
    intro j t hj
    rw [(hrest t (List.mem_of_getElem? hj)).2]
    rfl
  refine ⟨readers_eq hs, hretired, fun hrest l => ⟨hzero hrest l, ?_⟩, fun hrest x => ?_⟩
  · rcases hr : (s.mgr ()).retired l with _ | r
    · rfl
    · have hpos := hretired l r hr
      rw [hzero hrest l] at hpos
      exact absurd hpos (Nat.lt_irrefl 0)
  · constructor
    · intro hx
      obtain ⟨e, he⟩ := Option.isSome_iff_exists.mp hx
      have hchunk : (storeView s).chunks x = some e := (ExpiringMap.lookup_eq_some.mp he).1
      have hshows : (storeView s).Shows x.key x.generation := by
        refine howned.shown hs.store hchunk fun i a hi => ?_
        obtain ⟨t, ht, rfl⟩ := Option.map_eq_some_iff.mp ((List.getElem?_map ..).symm.trans hi)
        obtain ⟨⟨r, hpc⟩, hl⟩ := hrest t (List.mem_of_getElem? ht)
        rw [Thread.agent, hpc, hl]
        rfl
      obtain ⟨p, hp, hgen, hpos⟩ := id hshows
      have hindex := GenerationStore.Inv.shown_index hs.store hchunk hp hgen
      obtain ⟨h, hh, hptr⟩ := Option.bind_eq_some_iff.mp hp
      obtain ⟨g, hg, rfl⟩ := Option.map_eq_some_iff.mp hptr
      exact ⟨h.manifest, Option.map_eq_some_iff.mpr ⟨h, hh, rfl⟩, by rw [hg]; exact congrArg some hgen,
        hindex⟩
    · rintro ⟨m, hm, hg, hlt⟩
      obtain ⟨p, -, -, -, hchunks⟩ := hs.publication hm hg
      obtain ⟨e, he, hd⟩ := hchunks x.index hlt
      rw [ExpiringMap.has, ExpiringMap.lookup_of_deadline_none s.now he hd]
      rfl

/-- `Remove` has deleted the manifest when its caller cancels. -/
def cancelledRemove : List (Action Unit) :=
  [.start () (.warm sampleSpec) none, .run 0 .ok none, .run 0 .ok none, .run 0 .ok none,
    .run 0 .ok (some sampleResponse), .run 0 .ok none, .run 0 .ok none, .run 0 .ok none,
    .run 0 .ok none, .run 0 .ok none, .start () (.remove "iptv:cache:p:e") none, .run 1 .ok none,
    .run 1 .ok none, .run 1 .ok none, .cancel 1, .run 1 .ok none, .run 1 .ok none]

/-- Its chunks stay for good, without a manifest. -/
theorem cancelledRemove_leaves_chunks :
    ∃ s : State Unit, Run step (fun _ a => a.plain ∧ a.steady ∧ a.faultless) init s ∧
      ¬ Exact s := by
  have h : (exec step (init : State Unit) cancelledRemove).map (fun s =>
      (s.threads.map fun t => (t.pc, t.lease), s.redis.loadManifest "iptv:cache:p:e",
        s.redis.chunks.has s.now ⟨"iptv:cache:p:e", 2, 0⟩)) =
      some ([(.returned .ok, none), (.returned .ok, none)], none, true) := by
    decide +kernel
  have hok : ∀ a ∈ cancelledRemove, ∀ _ : State Unit, a.plain ∧ a.steady ∧ a.faultless := by
    simp [cancelledRemove, Action.plain, Action.steady, Action.faultless, Call.plain]
  obtain ⟨s, hrun, hobs⟩ := Run.of_eval hok h
  obtain ⟨hthreads, hrest⟩ := Prod.mk.inj hobs
  obtain ⟨hnone, hchunk⟩ := Prod.mk.inj hrest
  refine ⟨s, hrun, fun hexact => ?_⟩
  have hatrest : AtRest s := by
    intro t ht
    have hmem : (t.pc, t.lease) ∈ s.threads.map fun t => (t.pc, t.lease) :=
      List.mem_map_of_mem ht
    rw [hthreads] at hmem
    have heq : (t.pc, t.lease) = (.returned .ok, none) := by simpa using hmem
    obtain ⟨hpc, hl⟩ := Prod.mk.inj heq
    exact ⟨⟨_, hpc⟩, hl⟩
  obtain ⟨m, hm, -⟩ := (hexact.chunks hatrest _).mp hchunk
  rw [hnone] at hm
  cases hm

/-- `Warm`, a hit that is released, and a `Remove` that is left alone. -/
def orderlyRemove : List (Action Unit) :=
  warmThenHit ++ [.release 1, .run 1 .ok none, .start () (.remove "iptv:cache:p:e") none,
    .run 2 .ok none, .run 2 .ok none, .run 2 .ok none, .run 2 .ok none, .run 2 .ok none]

/-- The action is one of that run, and no `Remove` deletes chunks without a context. -/
def orderlyStep (s : State Unit) (a : Action Unit) : Bool :=
  orderlyRemove.contains a && match a with
    | .run i _ _ => s.threads[i]?.all fun t => match t.pc with
      | .cleanup _ _ _ _ false _ => !t.ctxDone s.now
      | _ => true
    | _ => true

/-- The state after it is at rest, and no chunk is left. -/
theorem rest_is_exact_sample :
    ∃ s : State Unit, CleanRun s ∧ AtRest s ∧
      ∀ g j, s.redis.chunks.has s.now ⟨"iptv:cache:p:e", g, j⟩ = false := by
  have h : (exec (fun s a => if orderlyStep s a then step s a else none) (init : State Unit)
      orderlyRemove).map (fun s => (s.threads.map fun t => (t.pc, t.lease),
        s.redis.loadManifest "iptv:cache:p:e")) =
      some ([(.returned .ok, none), (.returned (.response sampleResponse true), none),
        (.returned .ok, none)], none) := by
    decide +kernel
  have hactions : ∀ a ∈ orderlyRemove, a.plain ∧ a.steady ∧ a.faultless := by
    simp [orderlyRemove, warmThenHit, Action.plain, Action.steady, Action.faultless, Call.plain]
  have hok : ∀ (s : State Unit) (a : Action Unit), orderlyStep s a = true →
      a.plain ∧ a.steady ∧ a.faultless ∧ a.removesInTime s := by
    intro s a ha
    obtain ⟨hmem, htime⟩ := Bool.and_eq_true_iff.mp ha
    obtain ⟨hplain, hsteady, hfault⟩ := hactions a (List.contains_iff_mem.mp hmem)
    refine ⟨hplain, hsteady, hfault, ?_⟩
    cases a with
    | run i o fetched =>
      intro t key g n j next hi hpc
      dsimp only at htime
      rw [hi, Option.all_some, hpc] at htime
      exact Bool.not_eq_true' _ ▸ htime
    | _ => trivial
  obtain ⟨s, hrun, hobs⟩ := Run.of_tested hok h
  obtain ⟨hthreads, hnone⟩ := Prod.mk.inj hobs
  have hatrest : AtRest s := by
    intro t ht
    have hmem : (t.pc, t.lease) ∈ s.threads.map fun t => (t.pc, t.lease) :=
      List.mem_map_of_mem ht
    rw [hthreads] at hmem
    simp only [List.mem_cons, Prod.mk.injEq, List.not_mem_nil, or_false] at hmem
    rcases hmem with ⟨hpc, hl⟩ | ⟨hpc, hl⟩ | ⟨hpc, hl⟩ <;> exact ⟨⟨_, hpc⟩, hl⟩
  refine ⟨s, hrun, hatrest, fun g j => ?_⟩
  rw [Bool.eq_false_iff]
  intro hhas
  obtain ⟨m, hm, -⟩ := ((rest_is_exact hrun).chunks hatrest _).mp hhas
  rw [hnone] at hm
  cases hm

end IptvProxy.Cache
