import IptvProxy.Cache.Refill
import IptvProxy.Cache.Whole

/-!
# Hits are fresh

A hit is the response that the cache held for the key at one moment between the call of
`GetOrFetch` and its return (`hits_are_fresh`): replacements, deletions and expiries that happen
while the chunks are read do not show, and nothing is handed out that had been replaced or removed
before the call.

The moment is the one at which `get` pins a generation. What a reader has pinned is kept along the
run (`Pc.Took`), with the two runs to and from that moment (`HeldSince`).
-/

namespace IptvProxy.Cache

open Agents GenerationStore Transition

/-- The manifest was in Redis at one moment between two states. -/
def HeldSince (s₁ s : State Unit) (key : String) (m : Manifest) : Prop :=
  ∃ u : State Unit, Run step (fun _ a => a.atomic) s₁ u ∧ Run step (fun _ a => a.atomic) u s ∧
    u.redis.loadManifest key = some m

/-- The response is a publication of the key whose manifest satisfies `Q`. -/
def State.Takes (s : State Unit) (Q : String → Manifest → Prop) (key : String) (r : Response) :
    Prop :=
  ∃ p ∈ s.published, p.key = key ∧ Q key p.manifest ∧ r = p.manifest.response p.body

/-- What a reader has pinned, and what a hit hands out, has a manifest that satisfies `Q`. -/
def Pc.Took (Q : String → Manifest → Prop) (s : State Unit) (asks : Option String) : Pc → Prop
  | .getChunk key m _ _ _ _ => Q key m
  | .getRegister _ (some (_, r)) => ∃ key, asks = some key ∧ s.Takes Q key r
  | .returned (.response r true) => ∃ key, asks = some key ∧ s.Takes Q key r
  | .scheduleFromMeta _ _ next => next.Took Q s asks
  | .schedule _ _ next => next.Took Q s asks
  | .releaseReader _ _ next => next.Took Q s asks
  | .cleanup _ _ _ _ _ next => next.Took Q s asks
  | .expire _ _ _ _ _ next => next.Took Q s asks
  | .unlock _ _ next => next.Took Q s asks
  | .registerLoad _ next => next.Took Q s asks
  | .register _ _ next => next.Took Q s asks
  | _ => True

section Steps

variable {Q R : String → Manifest → Prop} {s s' s₁ : State Unit} {i j : ℕ} {t : Thread Unit}
  {o : Outcome} {asks : Option String} {key : String} {r : Response}

theorem State.Takes.mono (h : s.Takes Q key r) (hsub : ∀ p ∈ s.published, p ∈ s'.published)
    (hQ : ∀ key m, Q key m → R key m) : s'.Takes R key r := by
  obtain ⟨p, hp, hkey, hm, hr⟩ := h
  exact ⟨p, hsub p hp, hkey, hQ _ _ hm, hr⟩

theorem Pc.Took.mono {pc : Pc} (h : pc.Took Q s asks)
    (hsub : ∀ p ∈ s.published, p ∈ s'.published) (hQ : ∀ key m, Q key m → R key m) :
    pc.Took R s' asks := by
  induction pc with
  | getChunk => exact hQ _ _ h
  | getRegister _ found =>
    rcases found with _ | ⟨m, r⟩
    · trivial
    · obtain ⟨key, hasks, htakes⟩ := h
      exact ⟨key, hasks, htakes.mono hsub hQ⟩
  | returned result =>
    rcases result with _ | _ | ⟨r, _ | _⟩
    case response.true =>
      obtain ⟨key, hasks, htakes⟩ := h
      exact ⟨key, hasks, htakes.mono hsub hQ⟩
    all_goals trivial
  | scheduleFromMeta _ _ _ ih | schedule _ _ _ ih | releaseReader _ _ _ ih => exact ih h
  | cleanup _ _ _ _ _ _ ih | expire _ _ _ _ _ _ ih | unlock _ _ _ ih => exact ih h
  | registerLoad _ _ ih | register _ _ _ ih => exact ih h
  | _ => trivial

theorem Operation.took_failed (operation : Operation) (spec : Spec) (e : Error) :
    (operation.failed spec e).Took Q s asks := by
  cases operation <;> trivial

theorem Job.took_failed (job : Job) (e : Error) : (job.failed e).Took Q s asks := by
  rw [Job.failed]
  split
  · trivial
  · exact Operation.took_failed ..

theorem Job.took_published (job : Job) : job.published.Took Q s asks := by
  rw [Job.published]
  split <;> trivial

theorem Job.took_staging (job : Job) (staged : Staged) (j : ℕ) :
    (job.staging staged j).Took Q s asks := by
  rw [Job.staging]
  split <;> trivial

theorem Pc.took_cleanupGeneration {g n : ℕ} {background : Bool} {next : Pc}
    (h : next.Took Q s asks) : (Pc.cleanupGeneration key g n background next).Took Q s asks := by
  rw [Pc.cleanupGeneration]
  split <;> exact h

theorem Pc.took_expireGenerationFallback {g n : ℕ} {background : Bool} {next : Pc}
    (h : next.Took Q s asks) :
    (Pc.expireGenerationFallback key g n background next).Took Q s asks := by
  rw [Pc.expireGenerationFallback]
  split <;> exact h

/-- A section without effect on the shared state keeps what its thread has taken. When the last
chunk is read, the response is the publication of the pinned manifest. -/
theorem Moves.took {pc pc' : Pc} (h : Moves s t o pc pc') (hs : Sound s) (hp : pc.plain)
    (hread : pc.ReadOk s t.asks) (hread' : pc'.ReadOk s t.asks) (ht : pc.Took Q s t.asks) :
    pc'.Took Q s t.asks := by
  cases h with
  | bypass hr => rcases hr with rfl | ⟨_, rfl⟩ <;> trivial
  | @getMissing key caller | @getBodyMissing key m caller => cases caller <;> trivial
  | getLegacy | getBodyFailed | loadOldFill | loadOld => trivial
  | @getBodyFound key m caller body hb =>
    obtain ⟨e, he, hbody⟩ := Option.bind_eq_some_iff.mp hb
    rw [(hs.noLegacy key e he).1] at hbody
    cases hbody
  | getChunkNext => exact ht
  | @getChunkDone key m g buffer j caller c hc hj =>
    obtain ⟨hasks, p, hpub, rfl, rfl, hg, rfl, hlt⟩ := hread
    have hcount : p.manifest.chunkCount = chunkCount p.body := (hs.published p hpub).2.1
    have hval := hs.chunk_eq hpub hg (hcount ▸ hlt) (ExpiringMap.lookup_eq_some.mp hc).1
    have hbody : chunkPrefix p.body j ++ c.value = p.body := by
      have hlast : chunkCount p.body = j + 1 := by omega
      calc chunkPrefix p.body j ++ c.value
          _ = chunkPrefix p.body (j + 1) := by rw [hval, chunkPrefix]
          _ = p.body := by rw [← hlast, chunkPrefix_chunkCount]
    rw [hbody]
    cases caller with
    | getOrFetch spec => exact ⟨p.key, hasks, p, hpub, rfl, ht, rfl⟩
    | migrate => exact hp.elim
  | cleanupFailed | expireFailed => split <;> exact ht
  | scheduleFromMeta | unlockFailed => exact ht
  | registerLoadFound => exact ht
  | loadOldFailed | fetchFailed => exact Job.took_failed ..
  | writeChunkFailed | swapFailed => exact Pc.took_cleanupGeneration (Job.took_failed ..)
  | migrateLoadFailed | migrateLoadFound | migrateLoadMissing => exact hp.elim
  | migrateDisabled | duplicateLoadFailed | duplicateLoadNone => exact hp.elim
  | duplicateLoadSome | duplicateDelFailed => exact hp.elim
  | _ => trivial

/-- A section keeps what its thread has taken, if `Q` holds of what Redis holds. -/
theorem Ran.took (h : Ran s i t o s') (hi : s.threads[i]? = some t) (hs : Sound s)
    (hQ : ∀ key m, s.redis.loadManifest key = some m → Q key m) (ht : t.pc.Took Q s t.asks) :
    ∀ u, s'.threads[i]? = some u → u.pc.Took Q s' u.asks := by
  have hsub := h.publishes.subset
  have hread : t.pc.ReadOk s t.asks := hs.reads t (List.mem_of_getElem? hi)
  have hp : t.pc.plain := (hs.shape t (List.mem_of_getElem? hi)).plain
  have hlt : i < s.threads.length := (List.getElem?_eq_some_iff.mp hi).1
  have hset : ∀ {u : Thread Unit}, s'.threads = s.threads.set i u → u.asks = t.asks →
      u.pc.Took Q s t.asks → ∀ v, s'.threads[i]? = some v → v.pc.Took Q s' v.asks := by
    intro u hu hasks htook v hv
    rw [hu, List.getElem?_set_self hlt] at hv
    obtain rfl := Option.some.inj hv
    rw [hasks]
    exact htook.mono hsub fun _ _ => id
  cases h with
  | move hpc hm =>
    rw [hpc] at ht hp hread
    exact hset rfl rfl (hm.took hs hp hread (hm.readOk hs hp hread) ht)
  | pin hpc hmu hm hg => exact hset rfl rfl (hQ _ _ hm)
  | unpin hpc _ =>
    rw [hpc] at ht
    refine hset rfl rfl ?_
    split
    · exact ht
    · exact Pc.took_cleanupGeneration ht
  | cleanup hpc _ | expire hpc _ =>
    rw [hpc] at ht
    refine hset rfl rfl ?_
    split <;> exact ht
  | registerHit hpc _ =>
    rw [hpc] at ht
    exact hset rfl rfl ht
  | registerMiss hpc _ =>
    intro u hu
    obtain rfl : _ = u := by
      change ((s.threads.set i _) ++ [_])[i]? = some u at hu
      rw [List.getElem?_append_left (by simpa using hlt), List.getElem?_set_self hlt] at hu
      exact Option.some.inj hu
    trivial
  | schedule hpc _ | register hpc _ | unlock hpc _ =>
    rw [hpc] at ht
    exact hset rfl rfl ht
  | refill | warm | purge | removeLoad | removeDelFailed | removeDelLost | removeEmpty =>
    exact hset rfl rfl trivial
  | acquireFailed => exact hset (State.attempted_setThread ..) rfl (Operation.took_failed ..)
  | acquired | removeAcquireFailed | removeAcquired =>
    exact hset (State.attempted_setThread ..) rfl trivial
  | stage => exact hset rfl rfl (Job.took_staging ..)
  | writeChunk =>
    refine hset rfl rfl ?_
    split
    · exact Job.took_staging ..
    · exact Pc.took_cleanupGeneration (Job.took_failed ..)
  | swapLost => exact hset rfl rfl (Pc.took_cleanupGeneration (Job.took_failed ..))
  | swapFirst => exact hset rfl rfl (Job.took_published _)
  | swapWaits => exact hset rfl rfl (Pc.took_expireGenerationFallback (Job.took_published _))
  | swapClears => exact hset rfl rfl (Pc.took_cleanupGeneration (Job.took_published _))
  | removeWaits => exact hset rfl rfl (Pc.took_expireGenerationFallback trivial)
  | removeClears => exact hset rfl rfl (Pc.took_cleanupGeneration trivial)
  | migratePublish hpc _ | migrateRegister hpc _ | duplicateForget hpc _ | duplicateDel hpc =>
    rw [hpc] at hp
    exact hp.elim

theorem Call.took_entry (call : Call) : call.entry.Took Q s asks := by
  have h := call.enters
  generalize call.entry = pc at h
  cases h with
  | done hr => rcases hr with rfl | ⟨_, rfl⟩ <;> trivial
  | _ => trivial

/-- The operations that were started after `s₁` have taken what was held since `s₁`. -/
def TookSince (s₁ s : State Unit) : Prop :=
  ∀ j t, s₁.threads.length ≤ j → s.threads[j]? = some t → t.pc.Took (HeldSince s₁ s) s t.asks

theorem Steps.publishes {a : Action Unit} (h : Steps s a s') : Publishes s s' := by
  cases h with
  | run _ h => exact h.publishes
  | _ => exact .same rfl rfl

theorem Steps.tookSince {a : Action Unit} (hrun : Run step (fun _ a => a.atomic) s₁ s)
    (hstep : step s a = some s') (ha : a.atomic) (hs : Sound s) (h : TookSince s₁ s) :
    TookSince s₁ s' := by
  have hsteps := Steps.of_step hstep
  have hsub := hsteps.publishes.subset
  have hheld : ∀ key m, HeldSince s₁ s key m → HeldSince s₁ s' key m := by
    rintro key m ⟨u, hto, hfrom, hm⟩
    exact ⟨u, hto, hfrom.tail ⟨a, ha, hstep⟩, hm⟩
  have hnow : ∀ key m, s.redis.loadManifest key = some m → HeldSince s₁ s key m :=
    fun key m hm => ⟨s, hrun, .refl, hm⟩
  have hold : ∀ j u, s₁.threads.length ≤ j → s.threads[j]? = some u →
      u.pc.Took (HeldSince s₁ s') s' u.asks :=
    fun j u hj hu => (h j u hj hu).mono hsub hheld
  intro j u hj hu
  cases hsteps with
  | start =>
    rcases getElem?_append_cases hu with hu | rfl
    · exact hold j u hj hu
    · exact Call.took_entry _
  | @run i o fetched t s' hi hran =>
    by_cases hji : j = i
    · subst hji
      exact (hran.took hi hs hnow (h j t hj hi) u hu).mono (fun _ => id) hheld
    · rcases hran.others hu hji with hu | ⟨spec, hpc⟩
      · exact hold j u hj hu
      · rw [hpc]
        trivial
  | fire =>
    rcases getElem?_append_cases hu with hu | rfl
    · exact hold j u hj hu
    · trivial
  | @release i t r hit key g hi hpc hl =>
    rcases getElem?_set_cases hu with ⟨rfl, rfl⟩ | ⟨-, hu⟩
    · have ht := hold j t hj hi
      rw [hpc] at ht
      exact ht
    · exact hold j u hj hu
  | releaseAgain => exact hold j u hj hu
  | @cancel i t hi hc =>
    rcases getElem?_set_cases hu with ⟨rfl, rfl⟩ | ⟨-, hu⟩
    · exact hold j t hj hi
    · exact hold j u hj hu
  | tick => exact hold j u hj hu
  | restart =>
    obtain ⟨v, -, rfl⟩ := stepRestart_thread hu
    trivial

theorem tookSince_of_run (h : Run step (fun _ a => a.atomic) init s₁)
    (hrest : Run step (fun _ a => a.atomic) s₁ s) : TookSince s₁ s := by
  induction hrest with
  | refl =>
    intro j t hj ht
    exact absurd (List.getElem?_eq_some_iff.mp ht).1 (Nat.not_lt.mpr hj)
  | tail hrest hnext ih =>
    obtain ⟨a, ha, hstep⟩ := hnext
    exact Steps.tookSince hrest hstep ha (sound_of_run (h.trans hrest)) ih

theorem published_of_run (hrest : Run step (fun _ a => a.atomic) s₁ s) :
    ∀ p ∈ s₁.published, p ∈ s.published := by
  induction hrest with
  | refl => exact fun _ => id
  | tail _ hnext ih =>
    obtain ⟨a, -, hstep⟩ := hnext
    exact fun p hp => (Steps.of_step hstep).publishes.subset p (ih p hp)

/-! ## The newest publication -/

theorem newest_of_run (h : Run step (fun _ a => a.atomic) init s) : s.Newest := by
  refine h.invariant (fun _ _ _ hs _ hstep => (Steps.of_step hstep).publishes.newest hs) ?_
  intro key e he
  cases he

/-- The stored manifest of a key is its newest publication. -/
theorem State.Newest.find {m : Manifest} (h : s.Newest) (hm : s.redis.loadManifest key = some m) :
    ∃ p, s.published.find? (·.key = key) = some p ∧ p.manifest = m := by
  obtain ⟨e, he, rfl⟩ := Option.map_eq_some_iff.mp hm
  obtain ⟨p, hp, rfl⟩ := h key e he
  exact ⟨p, hp, rfl⟩

/-- Publications are added in front. -/
theorem published_suffix (hrest : Run step (fun _ a => a.atomic) s₁ s) :
    s₁.published <:+ s.published := by
  induction hrest with
  | refl => exact List.suffix_refl _
  | tail _ hnext ih =>
    obtain ⟨a, -, hstep⟩ := hnext
    refine ih.trans ?_
    cases (Steps.of_step hstep).publishes with
    | same _ hpub | deleted _ _ hpub => exact ⟨[], by rw [List.nil_append, hpub]⟩
    | swapped _ _ _ _ hpub =>
      rw [hpub]
      exact List.suffix_cons _ _

/-- A key whose newest publication is `p` has no publication before it. -/
theorem after_of_find {l : List Publication} {p : Publication}
    (hfind : l.find? (·.key = key) = some p) :
    ∃ newer older, l = newer ++ p :: older ∧ ∀ q ∈ l, q.key = key → q ∈ p :: older := by
  obtain ⟨-, newer, older, rfl, hnewer⟩ := List.find?_eq_some_iff_append.mp hfind
  refine ⟨newer, older, rfl, fun q hq hkey => ?_⟩
  rcases List.mem_append.mp hq with hq | hq
  · exact absurd hkey (by simpa using hnewer q hq)
  · exact hq

end Steps

/-- **Hits are fresh.** A `GetOrFetch` that was called after `s₁` and has returned a hit in `s₂`
returns what was stored under its key at one moment in between: the status, content type and item
count of the manifest, and the bytes of its chunks. -/
theorem hits_are_fresh {s₁ s₂ : State Unit} (h : Run step (fun _ a => a.atomic) init s₁)
    (hrest : Run step (fun _ a => a.atomic) s₁ s₂) {i : ℕ} {t : Thread Unit} {r : Response}
    (hstart : s₁.threads.length ≤ i) (hi : s₂.threads[i]? = some t)
    (hpc : t.pc = .returned (.response r true)) :
    ∃ spec, t.call = some (.getOrFetch spec) ∧
      ∃ (u : State Unit) (m : Manifest) (g : ℕ), Run step (fun _ a => a.atomic) s₁ u ∧
        Run step (fun _ a => a.atomic) u s₂ ∧
        u.redis.loadManifest spec.normalized.key = some m ∧ m.generation = some g ∧
        r = m.response (u.redis.storedBody spec.normalized.key g m.chunkCount) := by
  have htook := tookSince_of_run h hrest i t hstart hi
  rw [hpc] at htook
  obtain ⟨key, hasks, p, hp, rfl, ⟨u, hto, hfrom, hm⟩, rfl⟩ := htook
  obtain ⟨call, hcall, hkey⟩ := Option.bind_eq_some_iff.mp hasks
  cases call with
  | getOrFetch spec =>
    have hkey : spec.normalized.key = p.key := Option.some.inj hkey
    have hu := sound_of_run (h.trans hto)
    have hs₂ := sound_of_run (h.trans hrest)
    obtain ⟨g, hg⟩ := Option.isSome_iff_exists.mp (hs₂.published p hp).1
    obtain ⟨q, hq, hqkey, hqm, hchunks⟩ := hu.publication hm hg
    obtain ⟨-, hbody⟩ := hs₂.publication_unique hp (published_of_run hfrom q hq) (by rw [hqm])
    refine ⟨spec, hcall, u, p.manifest, g, hto, hfrom, hkey ▸ hm, hg, ?_⟩
    rw [hkey, ← hqkey, ← hqm]
    rw [← hqm] at hg hchunks
    rw [hu.storedBody_eq hq hg (hqkey ▸ hchunks) (Nat.le_refl _), (hu.published q hq).2.1,
      chunkPrefix_chunkCount, hbody]
  | _ => cases hkey

/-- A hit does not hand out a publication that had been replaced before the call. -/
theorem hit_not_before {s₁ s₂ : State Unit} (h : Run step (fun _ a => a.atomic) init s₁)
    (hrest : Run step (fun _ a => a.atomic) s₁ s₂) {t : Thread Unit} {i : ℕ} {r : Response}
    {spec : Spec} (hstart : s₁.threads.length ≤ i) (hi : s₂.threads[i]? = some t)
    (hcall : t.call = some (.getOrFetch spec)) (hpc : t.pc = .returned (.response r true)) :
    ∃ (p' : Publication) (newer older : List Publication),
      r = p'.manifest.response p'.body ∧ p'.key = spec.normalized.key ∧
      s₂.published = newer ++ p' :: older ∧
      ∀ p ∈ s₁.published, p.key = spec.normalized.key → p ∈ p' :: older := by
  have htook := tookSince_of_run h hrest i t hstart hi
  rw [hpc, Thread.asks, hcall] at htook
  obtain ⟨key, hasks, p', hp', rfl, ⟨u, hto, hfrom, hm⟩, rfl⟩ := htook
  have hspec : spec.normalized.key = p'.key := Option.some.inj hasks
  obtain ⟨q, hq, hqm⟩ := (newest_of_run (h.trans hto)).find hm
  have hsuffix := published_suffix hfrom
  have hqkey : q.key = p'.key := by simpa using List.find?_some hq
  have hqmem := hsuffix.subset (List.mem_of_find?_eq_some hq)
  have hs₂ := sound_of_run (h.trans hrest)
  obtain ⟨-, hbody⟩ := hs₂.publication_unique hqmem hp' (by rw [hqm])
  obtain ⟨newer, older, hsplit, hafter⟩ := after_of_find hq
  obtain ⟨later, hlater⟩ := hsuffix
  refine ⟨q, later ++ newer, older, by rw [hqm, hbody], hqkey.trans hspec.symm, ?_,
    fun p hp hkey => hafter p ((published_suffix hto).subset hp) (hkey.trans hspec)⟩
  rw [← hlater, hsplit, List.append_assoc]

/-- **Reads are monotonic.** If a `GetOrFetch` has returned a hit in `s₁`, and another one of the
key that was called after `s₁` has returned a hit in `s₂`, then the first one handed out a
publication of `s₁`, and the second one that or a later one, because it is not older than any
publication of the key in `s₁`. -/
theorem reads_are_monotonic {s₁ s₂ : State Unit} (h : Run step (fun _ a => a.atomic) init s₁)
    (hrest : Run step (fun _ a => a.atomic) s₁ s₂) {t t' : Thread Unit} {i : ℕ} {r r' : Response}
    {spec spec' : Spec} (ht : t ∈ s₁.threads) (hcall : t.call = some (.getOrFetch spec))
    (hpc : t.pc = .returned (.response r true)) (hstart : s₁.threads.length ≤ i)
    (hi : s₂.threads[i]? = some t') (hcall' : t'.call = some (.getOrFetch spec'))
    (hpc' : t'.pc = .returned (.response r' true))
    (hkey : spec'.normalized.key = spec.normalized.key) :
    (∃ p ∈ s₁.published, p.key = spec.normalized.key ∧ r = p.manifest.response p.body) ∧
    ∃ (p' : Publication) (newer older : List Publication),
      r' = p'.manifest.response p'.body ∧ p'.key = spec.normalized.key ∧
      s₂.published = newer ++ p' :: older ∧
      ∀ p ∈ s₁.published, p.key = spec.normalized.key → p ∈ p' :: older := by
  have hread : t.pc.ReadOk s₁ t.asks := (sound_of_run h).reads t ht
  rw [hpc, Thread.asks, hcall] at hread
  obtain ⟨key, hasks, p, hp, rfl, rfl⟩ := hread
  have hspec : spec.normalized.key = p.key := Option.some.inj hasks
  obtain ⟨p', newer, older, hr, hkey', hsplit, hafter⟩ :=
    hit_not_before h hrest hstart hi hcall' hpc'
  rw [hkey] at hkey' hafter
  exact ⟨⟨p, hp, hspec.symm, rfl⟩, p', newer, older, hr, hkey', hsplit, hafter⟩

/-- `Warm` has returned before `GetOrFetch` is called, which gets what is stored. -/
theorem hits_are_fresh_sample : ∃ s₁ s₂ : State Unit,
    Run step (fun _ a => a.atomic) init s₁ ∧ Run step (fun _ a => a.atomic) s₁ s₂ ∧
      ∃ (u : State Unit) (m : Manifest) (g : ℕ), Run step (fun _ a => a.atomic) s₁ u ∧
        Run step (fun _ a => a.atomic) u s₂ ∧
        u.redis.loadManifest sampleSpec.normalized.key = some m ∧ m.generation = some g ∧
        sampleResponse =
          m.response (u.redis.storedBody sampleSpec.normalized.key g m.chunkCount) := by
  have hwarm : (exec step (init : State Unit) (warmThenHit.take 10)).map
      (fun s => s.threads.length) = some 1 := by decide +kernel
  obtain ⟨s₁, hs₁, hlength⟩ := Option.map_eq_some_iff.mp hwarm
  have hhit : ((exec step (init : State Unit) (warmThenHit.take 10)).bind fun s =>
      exec step s (warmThenHit.drop 10)).map (fun s => s.threads[1]?.map fun t =>
      (t.call, t.pc)) =
      some (some (some (.getOrFetch sampleSpec), .returned (.response sampleResponse true))) := by
    decide +kernel
  rw [hs₁, Option.bind_some] at hhit
  obtain ⟨s₂, hs₂, hobs⟩ := Option.map_eq_some_iff.mp hhit
  obtain ⟨t, ht, hpc⟩ := Option.map_eq_some_iff.mp hobs
  obtain ⟨hcall, hpc⟩ := Prod.mk.inj hpc
  have hrun : Run step (fun _ a => a.atomic) init s₁ :=
    Run.of_exec (fun a ha => atomic_warmThenHit a (List.mem_of_mem_take ha)) hs₁
  have hrest : Run step (fun _ a => a.atomic) s₁ s₂ :=
    Run.of_exec (fun a ha => atomic_warmThenHit a (List.mem_of_mem_drop ha)) hs₂
  obtain ⟨spec, hspec, u, m, g, hfresh⟩ := hits_are_fresh hrun hrest (Nat.le_of_eq hlength) ht hpc
  rw [hcall] at hspec
  obtain rfl : sampleSpec = spec := by injection Option.some.inj hspec
  exact ⟨s₁, s₂, hrun, hrest, u, m, g, hfresh⟩

/-- `Purge` replaces the entry, and a `GetOrFetch` that is called after it is a hit. -/
def purgeThenHit : List (Action Unit) :=
  .start () (.purge sampleSpec.key) none ::
    List.replicate 10 (.run 2 .ok (some { sampleResponse with body := [7] })) ++
    .start () (.getOrFetch sampleSpec) none :: List.replicate 5 (.run 3 .ok none)

theorem atomic_purgeThenHit : ∀ a ∈ purgeThenHit, ∀ _ : State Unit, a.atomic := by
  simp [purgeThenHit, Action.atomic, Action.plain, Call.plain]

/-- The second hit hands out what `Purge` has published. -/
theorem reads_are_monotonic_sample : ∃ s₁ s₂ : State Unit,
    (∃ p ∈ s₁.published, p.key = sampleSpec.normalized.key ∧
      sampleResponse = p.manifest.response p.body) ∧
    ∃ (p' : Publication) (newer older : List Publication),
      { sampleResponse with body := [7] } = p'.manifest.response p'.body ∧
      p'.key = sampleSpec.normalized.key ∧ s₂.published = newer ++ p' :: older ∧
      ∀ p ∈ s₁.published, p.key = sampleSpec.normalized.key → p ∈ p' :: older := by
  have hfirst : (exec step (init : State Unit) warmThenHit).map (fun s => (s.threads.length,
      s.threads[1]?.map fun t => (t.call, t.pc))) =
      some (2, some (some (.getOrFetch sampleSpec),
        .returned (.response sampleResponse true))) := by decide +kernel
  obtain ⟨s₁, hs₁, hobs⟩ := Option.map_eq_some_iff.mp hfirst
  obtain ⟨hlength, hobs⟩ := Prod.mk.inj hobs
  obtain ⟨t, ht, hobs⟩ := Option.map_eq_some_iff.mp hobs
  obtain ⟨hcall, hpc⟩ := Prod.mk.inj hobs
  have hsecond : ((exec step (init : State Unit) warmThenHit).bind fun s =>
      exec step s purgeThenHit).map (fun s => s.threads[3]?.map fun t => (t.call, t.pc)) =
      some (some (some (.getOrFetch sampleSpec),
        .returned (.response { sampleResponse with body := [7] } true))) := by decide +kernel
  rw [hs₁, Option.bind_some] at hsecond
  obtain ⟨s₂, hs₂, hobs⟩ := Option.map_eq_some_iff.mp hsecond
  obtain ⟨t', ht', hobs⟩ := Option.map_eq_some_iff.mp hobs
  obtain ⟨hcall', hpc'⟩ := Prod.mk.inj hobs
  exact ⟨s₁, s₂, reads_are_monotonic (Run.of_exec atomic_warmThenHit hs₁)
    (Run.of_exec atomic_purgeThenHit hs₂) (List.mem_of_getElem? ht) hcall hpc (by omega) ht'
    hcall' hpc' rfl⟩

end IptvProxy.Cache
