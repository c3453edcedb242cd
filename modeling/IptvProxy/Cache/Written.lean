import IptvProxy.Cache.Fresh
import IptvProxy.Cache.Upkeep

/-!
# Replacements take effect

A `Warm` or a `Purge` that returns without an error has itself published a generation of its key
between its call and its return (`writes_take_effect`). With the newest publication of a key being
what is stored, a `GetOrFetch` that is called afterwards hands out this generation or a later one
(`reads_follow_writes`).

What an operation in flight will return is read off its control point (`Pc.Changes`): it runs a
replacement of its key, or it has published.
-/

namespace IptvProxy.Cache

open Agents GenerationStore Transition

/-- What an operation does to a key. -/
inductive Change where
  /-- a replacement publishes -/
  | published (operation : Operation)
  /-- `Remove` deletes the manifest -/
  | deleted
  deriving DecidableEq

/-- The key that an operation changes, and how. -/
def Call.changes : Call → Option (String × Change)
  | .warm spec =>
    if spec.normalized.ttl ≤ 0 then none else some (spec.normalized.key, .published .warm)
  | .purge key => some (key, .published .purge)
  | .remove key => some (key, .deleted)
  | _ => none

/-- An operation on the key that returns without an error only if `W` holds. -/
def Pc.Changes (W : Prop) (key : String) (change : Change) : Pc → Prop
  | .warm spec => spec.key = key ∧ change = .published .warm
  | .replaceNow key' => key' = key ∧ change = .published .purge
  | .acquire spec operation => spec.key = key ∧ change = .published operation
  | .loadOld job => job.spec.key = key ∧ change = .published job.operation
  | .fetch job => job.spec.key = key ∧ change = .published job.operation
  | .writeChunk job _ _ => job.spec.key = key ∧ change = .published job.operation
  | .stamp job _ => job.spec.key = key ∧ change = .published job.operation
  | .swap job _ _ => job.spec.key = key ∧ change = .published job.operation
  | .removeAcquire key' => key' = key ∧ change = .deleted
  | .removeLoad key' _ => key' = key ∧ change = .deleted
  | .removeDel key' _ _ => key' = key ∧ change = .deleted
  | .unlock _ _ next => next.Changes W key change
  | .schedule _ _ next => next.Changes W key change
  | .cleanup _ _ _ _ _ next => next.Changes W key change
  | .expire _ _ _ _ _ next => next.Changes W key change
  | .returned .ok => W
  | .returned (.error _) => True
  | .crashed => True
  | _ => False

/-- The operations that a caller waits for, and that end with an error if they change nothing. -/
def Change.Awaited (change : Change) : Prop :=
  change = .published .warm ∨ change = .published .purge ∨ change = .deleted

section Steps

variable {W W' : Prop} {key : String} {change : Change} {s s' s₁ : State Unit} {i : ℕ}
  {t : Thread Unit} {o : Outcome}

theorem Pc.Changes.mono {pc : Pc} (h : pc.Changes W key change) (hW : W → W') :
    pc.Changes W' key change := by
  induction pc with
  | unlock _ _ _ ih | schedule _ _ _ ih => exact ih h
  | cleanup _ _ _ _ _ _ ih | expire _ _ _ _ _ _ ih => exact ih h
  | returned result =>
    rcases result with _ | _ | _
    · exact hW h
    · trivial
    · exact h.elim
  | _ => exact h

theorem Operation.changes_failed (operation' : Operation) (spec : Spec) (e : Error) :
    (operation'.failed spec e).Changes W key change := by
  cases operation' <;> trivial

theorem Job.changes_failed (job : Job) (e : Error) : (job.failed e).Changes W key change := by
  rw [Job.failed]
  split
  · trivial
  · exact Operation.changes_failed ..

/-- A replacement that is reported as done. -/
theorem Job.changes_published {job : Job} (hop : change.Awaited)
    (hjob : change = .published job.operation) (hW : W) :
    job.published.Changes W key change := by
  rw [Job.published]
  split
  · next hmigrate =>
    rw [hmigrate] at hjob
    rcases hop with rfl | rfl | rfl <;> cases hjob
  · exact hW

theorem Job.changes_staging {job : Job}
    (h : job.spec.key = key ∧ change = .published job.operation)
    (staged : Staged) (j : ℕ) : (job.staging staged j).Changes W key change := by
  rw [Job.staging]
  split <;> exact h

theorem Pc.changes_cleanupGeneration {key' : String} {g n : ℕ} {background : Bool} {next : Pc}
    (h : next.Changes W key change) :
    (Pc.cleanupGeneration key' g n background next).Changes W key change := by
  rw [Pc.cleanupGeneration]
  split <;> exact h

theorem Pc.changes_expireGenerationFallback {key' : String} {g n : ℕ} {background : Bool}
    {next : Pc} (h : next.Changes W key change) :
    (Pc.expireGenerationFallback key' g n background next).Changes W key change := by
  rw [Pc.expireGenerationFallback]
  split <;> exact h

theorem Moves.changes {pc pc' : Pc} (h : Moves s t o pc pc')
    (hop : change.Awaited) (ht : pc.Changes W key change) :
    pc'.Changes W key change := by
  cases h with
  | cleanupFailed | expireFailed => split <;> exact ht
  | replaceNowMissing => trivial
  | loadOldStop hfill | loadOldFill hfill =>
    have hchange := ht.2
    rw [hfill] at hchange
    rcases hop with rfl | rfl | rfl <;> cases hchange
  | removeLoadFailed => trivial
  | loadOldFailed | fetchFailed => exact Job.changes_failed ..
  | loadOld | stamp | unlockFailed => exact ht
  | writeChunkFailed | swapFailed => exact Pc.changes_cleanupGeneration (Job.changes_failed ..)
  | _ => exact ht.elim

/-- A section of such an operation, where the publish script or the deletion makes `W` true. -/
theorem Ran.changes (h : Ran s i t o s') (hi : s.threads[i]? = some t)
    (hop : change.Awaited) (hkeyed : ∀ q, (s.mgr q).Keyed) (hW : W → W')
    (hswap : ∀ p, s'.published = p :: s.published → p.key = key →
      change = .published p.operation → W')
    (hdel : s'.redis.hash key = none → change = .deleted → W')
    (ht : t.pc.Changes W key change) :
    ∃ u, s'.threads[i]? = some u ∧ u.pc.Changes W' key change := by
  have hlt : i < s.threads.length := (List.getElem?_eq_some_iff.mp hi).1
  have hset : ∀ {u : Thread Unit}, s'.threads = s.threads.set i u →
      u.pc.Changes W' key change →
      ∃ v, s'.threads[i]? = some v ∧ v.pc.Changes W' key change := by
    intro u hu hchanges
    refine ⟨u, ?_, hchanges⟩
    rw [hu, List.getElem?_set_self hlt]
  have hkept := ht.mono hW
  cases h with
  | move hpc hm =>
    rw [hpc] at hkept
    exact hset rfl (hm.changes hop hkept)
  | cleanup hpc _ | expire hpc _ =>
    rw [hpc] at hkept
    refine hset rfl ?_
    split <;> exact hkept
  | schedule hpc _ | unlock hpc _ =>
    rw [hpc] at hkept
    exact hset rfl hkept
  | @warm spec hpc hmu =>
    rw [hpc] at hkept
    have hspec : ((s.mgr t.pid).registerIfAbsent spec).1.key = spec.key :=
      ((hkeyed t.pid).registerIfAbsent rfl).2
    exact hset rfl ⟨hspec.trans hkept.1, hkept.2⟩
  | purge hpc hspec =>
    rw [hpc] at hkept
    exact hset rfl ⟨((hkeyed t.pid).specs hspec).trans hkept.1, hkept.2⟩
  | acquireFailed => exact hset (State.attempted_setThread ..) (Operation.changes_failed ..)
  | removeAcquireFailed => exact hset (State.attempted_setThread ..) trivial
  | acquired hpc | removeAcquired hpc =>
    rw [hpc] at hkept
    exact hset (State.attempted_setThread ..) hkept
  | stage hpc =>
    rw [hpc] at hkept
    exact hset rfl (Job.changes_staging hkept ..)
  | writeChunk hpc =>
    rw [hpc] at hkept
    refine hset rfl ?_
    split
    · exact Job.changes_staging hkept ..
    · exact Pc.changes_cleanupGeneration (Job.changes_failed ..)
  | swapLost => exact hset rfl (Pc.changes_cleanupGeneration (Job.changes_failed ..))
  | swapFirst hpc =>
    rw [hpc] at hkept
    exact hset rfl (Job.changes_published hop hkept.2 (hswap _ rfl hkept.1 hkept.2))
  | swapWaits hpc =>
    rw [hpc] at hkept
    exact hset rfl (Pc.changes_expireGenerationFallback
      (Job.changes_published hop hkept.2 (hswap _ rfl hkept.1 hkept.2)))
  | swapClears hpc =>
    rw [hpc] at hkept
    exact hset rfl (Pc.changes_cleanupGeneration
      (Job.changes_published hop hkept.2 (hswap _ rfl hkept.1 hkept.2)))
  | pin hpc | unpin hpc | registerHit hpc | registerMiss hpc | refill hpc | register hpc =>
    rw [hpc] at ht
    exact ht.elim
  | removeLoad hpc =>
    rw [hpc] at hkept
    exact hset rfl hkept
  | removeDelFailed | removeDelLost => exact hset rfl trivial
  | removeEmpty hpc =>
    rw [hpc] at hkept
    exact hset rfl (hdel (by rw [← hkept.1]; exact Function.update_self ..) hkept.2)
  | removeWaits hpc =>
    rw [hpc] at hkept
    refine hset rfl (Pc.changes_expireGenerationFallback ?_)
    exact hdel (by rw [← hkept.1]; exact Function.update_self ..) hkept.2
  | removeClears hpc =>
    rw [hpc] at hkept
    refine hset rfl (Pc.changes_cleanupGeneration ?_)
    exact hdel (by rw [← hkept.1]; exact Function.update_self ..) hkept.2
  | migratePublish hpc | migrateRegister hpc | duplicateForget hpc | duplicateDel hpc =>
    rw [hpc] at ht
    exact ht.elim

/-- A thread keeps its call, and a new one has none. -/
theorem Ran.calls (h : Ran s i t o s') : ∃ t', (s'.threads = s.threads.set i t' ∨
    ∃ u, s'.threads = s.threads.set i t' ++ [u] ∧ u.call = none) ∧ t'.call = t.call := by
  cases h with
  | registerMiss => exact ⟨_, .inr ⟨_, rfl, rfl⟩, rfl⟩
  | acquireFailed | acquired | removeAcquireFailed | removeAcquired =>
    exact ⟨_, .inl (State.attempted_setThread ..), rfl⟩
  | _ => exact ⟨_, .inl rfl, rfl⟩

/-- Which thread has a call after a section. -/
theorem Ran.of_call (h : Ran s i t o s') {j : ℕ} {u : Thread Unit} {call : Call}
    (hj : s'.threads[j]? = some u) (hcall : u.call = some call) :
    (j = i ∧ t.call = some call) ∨ (j ≠ i ∧ s.threads[j]? = some u) := by
  obtain ⟨t', hthreads, ht'⟩ := h.calls
  have hset : (s.threads.set i t')[j]? = some u →
      (j = i ∧ t.call = some call) ∨ (j ≠ i ∧ s.threads[j]? = some u) := by
    intro hu
    rcases getElem?_set_cases hu with ⟨rfl, rfl⟩ | ⟨hji, hold⟩
    · exact .inl ⟨rfl, ht'.symm.trans hcall⟩
    · exact .inr ⟨hji, hold⟩
  rcases hthreads with heq | ⟨w, heq, hnone⟩
  · exact hset (heq ▸ hj)
  · rw [heq] at hj
    rcases getElem?_append_cases hj with hu | rfl
    · exact hset hu
    · rw [hnone] at hcall
      cases hcall

theorem Call.changes_cases {call : Call} (h : call.changes = some (key, change)) :
    change.Awaited ∧ call.entry.Changes W key change := by
  cases call with
  | warm spec =>
    rw [Call.changes, Option.ite_none_left_eq_some] at h
    obtain ⟨rfl, rfl⟩ := Prod.mk.inj (Option.some.inj h.2)
    refine ⟨.inl rfl, ?_⟩
    rw [Call.entry, if_neg h.1]
    split
    · trivial
    · exact ⟨rfl, rfl⟩
  | purge key' =>
    obtain ⟨rfl, rfl⟩ := Prod.mk.inj (Option.some.inj h)
    refine ⟨.inr (.inl rfl), ?_⟩
    rw [Call.entry]
    split
    · exact ⟨rfl, rfl⟩
    · trivial
  | remove key' =>
    obtain ⟨rfl, rfl⟩ := Prod.mk.inj (Option.some.inj h)
    refine ⟨.inr (.inr rfl), ?_⟩
    rw [Call.entry]
    split
    · exact ⟨rfl, rfl⟩
    · trivial
  | _ => cases h

/-- Between the two states a section of thread `i` has published `p`. -/
def PublishedBy (s₁ s : State Unit) (i : ℕ) (p : Publication) : Prop :=
  ∃ (u u' : State Unit) (o : Outcome) (fetched : Option Response),
    Run step (fun _ a => a.atomic) s₁ u ∧ step u (.run i o fetched) = some u' ∧
    Run step (fun _ a => a.atomic) u' s ∧ u'.published = p :: u.published

/-- What thread `i` has done to the key between two states: it has published, or the key had no
manifest at one moment. -/
def Done (i : ℕ) (s₁ s : State Unit) (key : String) : Change → Prop
  | .published operation => ∃ p, PublishedBy s₁ s i p ∧ p.key = key ∧ p.operation = operation
  | .deleted => ∃ u : State Unit, Run step (fun _ a => a.atomic) s₁ u ∧
      Run step (fun _ a => a.atomic) u s ∧ u.redis.hash key = none

/-- The operations that were started after `s₁` return only when they are done. -/
def DoneSince (s₁ s : State Unit) : Prop :=
  ∀ j t call key change, s₁.threads.length ≤ j → s.threads[j]? = some t →
    t.call = some call → call.changes = some (key, change) →
    t.pc.Changes (Done j s₁ s key change) key change

theorem keyed_of_run (h : Run step (fun _ a => a.atomic) init s) : ∀ q, (s.mgr q).Keyed := by
  refine h.invariant (fun _ _ _ hs _ hstep => (Steps.of_step hstep).keyed hs) ?_
  exact fun _ => ⟨fun h => (by cases h), fun h => (by cases h)⟩

/-- What was published is among the publications. -/
theorem PublishedBy.mem {p : Publication} (h : PublishedBy s₁ s i p) : p ∈ s.published := by
  obtain ⟨u, u', o, fetched, -, -, hfrom, hp⟩ := h
  obtain ⟨newer, hnewer⟩ := published_suffix hfrom
  rw [← hnewer, hp]
  exact List.mem_append_right _ List.mem_cons_self

theorem Done.mono (h : Done i s₁ s key change) (hrest : Run step (fun _ a => a.atomic) s s') :
    Done i s₁ s' key change := by
  cases change with
  | published operation =>
    obtain ⟨p, ⟨u, u', o, fetched, hto, hstep, hfrom, hp⟩, hkey⟩ := h
    exact ⟨p, ⟨u, u', o, fetched, hto, hstep, hfrom.trans hrest, hp⟩, hkey⟩
  | deleted =>
    obtain ⟨u, hto, hfrom, hnone⟩ := h
    exact ⟨u, hto, hfrom.trans hrest, hnone⟩

theorem Steps.doneSince {a : Action Unit} (hrun : Run step (fun _ a => a.atomic) s₁ s)
    (hstep : step s a = some s') (ha : a.atomic) (hkeyed : ∀ q, (s.mgr q).Keyed)
    (h : DoneSince s₁ s) : DoneSince s₁ s' := by
  have hnext : Run step (fun _ a => a.atomic) s s' := .single ⟨a, ha, hstep⟩
  have hold : ∀ j u call key change, s₁.threads.length ≤ j → s.threads[j]? = some u →
      u.call = some call → call.changes = some (key, change) →
      u.pc.Changes (Done j s₁ s' key change) key change :=
    fun j u call key change hj hu hcall hchanges =>
      (h j u call key change hj hu hcall hchanges).mono fun hdone => hdone.mono hnext
  intro j u call key change hj hu hcall hchanges
  cases Steps.of_step hstep with
  | start =>
    rcases getElem?_append_cases hu with hu | rfl
    · exact hold j u call key change hj hu hcall hchanges
    · obtain rfl := Option.some.inj hcall
      exact (Call.changes_cases hchanges).2
  | @run i o fetched t s' hi hran =>
    rcases hran.of_call hu hcall with ⟨rfl, hcalls⟩ | ⟨-, hu⟩
    · have hop := (Call.changes_cases (W := True) hchanges).1
      have hpublished : ∀ p, s'.published = p :: s.published → p.key = key →
          change = .published p.operation → Done j s₁ s' key change := by
        rintro p hp hkey rfl
        exact ⟨p, ⟨s, s', o, fetched, hrun, hstep, .refl, hp⟩, hkey, rfl⟩
      have hdeleted : s'.redis.hash key = none → change = .deleted → Done j s₁ s' key change := by
        rintro hnone rfl
        exact ⟨s', hrun.trans hnext, .refl, hnone⟩
      obtain ⟨v, hv, hpc⟩ := hran.changes hi hop hkeyed
        (fun hdone : Done j s₁ s key change => hdone.mono hnext) hpublished hdeleted
        (h j t call key change hj hi hcalls hchanges)
      obtain rfl := Option.some.inj (hv.symm.trans hu)
      exact hpc
    · exact hold j u call key change hj hu hcall hchanges
  | fire =>
    rcases getElem?_append_cases hu with hu | rfl
    · exact hold j u call key change hj hu hcall hchanges
    · cases hcall
  | @release i t r hit key' g hi hpc hl =>
    rcases getElem?_set_cases hu with ⟨rfl, rfl⟩ | ⟨-, hu⟩
    · have ht := hold j t call key change hj hi hcall hchanges
      rw [hpc] at ht
      exact ht
    · exact hold j u call key change hj hu hcall hchanges
  | releaseAgain => exact hold j u call key change hj hu hcall hchanges
  | @cancel i t hi hc =>
    rcases getElem?_set_cases hu with ⟨rfl, rfl⟩ | ⟨-, hu⟩
    · exact hold j t call key change hj hi hcall hchanges
    · exact hold j u call key change hj hu hcall hchanges
  | tick => exact hold j u call key change hj hu hcall hchanges
  | restart =>
    obtain ⟨v, -, rfl⟩ := stepRestart_thread hu
    trivial

theorem doneSince_of_run (h : Run step (fun _ a => a.atomic) init s₁)
    (hrest : Run step (fun _ a => a.atomic) s₁ s) : DoneSince s₁ s := by
  induction hrest with
  | refl =>
    intro j t call key change hj ht _ _
    exact absurd (List.getElem?_eq_some_iff.mp ht).1 (Nat.not_lt.mpr hj)
  | tail hrest hnext ih =>
    obtain ⟨a, ha, hstep⟩ := hnext
    exact Steps.doneSince hrest hstep ha (keyed_of_run (h.trans hrest)) ih

/-- What is stored after a key had no manifest was published since. -/
theorem published_since {s₀ : State Unit} (hnone : s₀.redis.hash key = none)
    (hrun : Run step (fun _ a => a.atomic) s₀ s) {m : Manifest}
    (hm : s.redis.loadManifest key = some m) :
    ∃ made, s.published = made ++ s₀.published ∧ ∃ p ∈ made, p.key = key ∧ p.manifest = m := by
  induction hrun generalizing m with
  | refl =>
    rw [Redis.loadManifest, hnone] at hm
    cases hm
  | tail hbefore hnext ih =>
    obtain ⟨a, -, hstep⟩ := hnext
    cases (Steps.of_step hstep).publishes with
    | same hhash hpub =>
      rw [Redis.loadManifest, hhash] at hm
      rw [hpub]
      exact ih hm
    | deleted k hhash hpub =>
      rw [Redis.loadManifest, hhash] at hm
      rw [hpub]
      by_cases hk : key = k
      · rw [hk, Function.update_self] at hm
        cases hm
      · rw [Function.update_of_ne hk] at hm
        exact ih hm
    | swapped job staged fetchedAt hhash hpub =>
      rw [Redis.loadManifest, hhash] at hm
      by_cases hk : key = job.spec.key
      · rw [hk, Function.update_self] at hm
        obtain rfl := Option.some.inj hm
        obtain ⟨made, hmade⟩ := published_suffix hbefore
        exact ⟨_ :: made, by rw [hpub, ← hmade, List.cons_append], _, List.mem_cons_self, hk.symm,
          rfl⟩
      · rw [Function.update_of_ne hk] at hm
        obtain ⟨made, hmade, p, hp, hrest⟩ := ih hm
        exact ⟨_ :: made, by rw [hpub, hmade, List.cons_append], p, List.mem_cons_of_mem _ hp,
          hrest⟩

end Steps

/-- **Replacements take effect.** A `Warm` (of a cache that is not disabled) or a `Purge` that was
called after `s₁` and has returned without an error in `s₂` has published a generation of its key
in between, in a section of its own. -/
theorem writes_take_effect {s₁ s₂ : State Unit} (h : Run step (fun _ a => a.atomic) init s₁)
    (hrest : Run step (fun _ a => a.atomic) s₁ s₂) {i : ℕ} {t : Thread Unit} {call : Call}
    {key : String} {operation : Operation} (hstart : s₁.threads.length ≤ i)
    (hi : s₂.threads[i]? = some t) (hcall : t.call = some call)
    (hchanges : call.changes = some (key, .published operation)) (hpc : t.pc = .returned .ok) :
    ∃ p, PublishedBy s₁ s₂ i p ∧ p.key = key ∧ p.operation = operation := by
  have hthread := doneSince_of_run h hrest i t call key _ hstart hi hcall hchanges
  rw [hpc] at hthread
  exact hthread

/-- `Warm` has published. -/
theorem writes_take_effect_sample : ∃ s₂ : State Unit, ∃ p, PublishedBy init s₂ 0 p ∧
    p.key = sampleSpec.normalized.key ∧ p.operation = .warm := by
  have hwarm : (exec step (init : State Unit) (warmThenHit.take 10)).map (fun s =>
      s.threads[0]?.map fun t => (t.call, t.pc)) =
      some (some (some (.warm sampleSpec), .returned .ok)) := by decide +kernel
  obtain ⟨s₂, hs₂, hobs⟩ := Option.map_eq_some_iff.mp hwarm
  obtain ⟨t, ht, hobs⟩ := Option.map_eq_some_iff.mp hobs
  obtain ⟨hcall, hpc⟩ := Prod.mk.inj hobs
  have hrun : Run step (fun _ a => a.atomic) (init : State Unit) s₂ :=
    Run.of_exec (fun a ha => atomic_warmThenHit a (List.mem_of_mem_take ha)) hs₂
  exact ⟨s₂, writes_take_effect .refl hrun (Nat.zero_le _) ht hcall (by decide) hpc⟩

/-- **Reads follow writes.** A `GetOrFetch` that was called after a `Warm` or a `Purge` of its key
has returned without an error, and that is a hit, hands out what this replacement has published
itself, or a later publication. -/
theorem reads_follow_writes {s₀ s₁ s₂ : State Unit}
    (h : Run step (fun _ a => a.atomic) init s₀) (hwrite : Run step (fun _ a => a.atomic) s₀ s₁)
    (hread : Run step (fun _ a => a.atomic) s₁ s₂) {i j : ℕ} {t t' : Thread Unit} {call : Call}
    {key : String} {operation : Operation} {spec : Spec} {r : Response}
    (hstart : s₀.threads.length ≤ i) (hi : s₁.threads[i]? = some t) (hcall : t.call = some call)
    (hchanges : call.changes = some (key, .published operation)) (hpc : t.pc = .returned .ok)
    (hstart' : s₁.threads.length ≤ j) (hj : s₂.threads[j]? = some t')
    (hcall' : t'.call = some (.getOrFetch spec)) (hpc' : t'.pc = .returned (.response r true))
    (hkey : spec.normalized.key = key) :
    ∃ (p p' : Publication) (newer older : List Publication),
      PublishedBy s₀ s₁ i p ∧ p.key = key ∧ p.operation = operation ∧
      r = p'.manifest.response p'.body ∧ p'.key = key ∧
      s₂.published = newer ++ p' :: older ∧ p ∈ p' :: older := by
  have hthread := doneSince_of_run h hwrite i t call key _ hstart hi hcall hchanges
  rw [hpc] at hthread
  obtain ⟨p, hp, hpkey, hoperation⟩ := hthread
  obtain ⟨p', newer, older, hr, hkey', hsplit, hafter⟩ :=
    hit_not_before (h.trans hwrite) hread hstart' hj hcall' hpc'
  exact ⟨p, p', newer, older, hp, hpkey, hoperation, hr, hkey'.trans hkey, hsplit,
    hafter p hp.mem (hpkey.trans hkey.symm)⟩

/-- **Reads follow removals.** A `GetOrFetch` that was called after a `Remove` of its key has
returned without an error, and that is a hit, hands out what was published after the `Remove` was
called. -/
theorem reads_follow_removals {s₀ s₁ s₂ : State Unit}
    (h : Run step (fun _ a => a.atomic) init s₀) (hremove : Run step (fun _ a => a.atomic) s₀ s₁)
    (hread : Run step (fun _ a => a.atomic) s₁ s₂) {i j : ℕ} {t t' : Thread Unit} {key : String}
    {spec : Spec} {r : Response} (hstart : s₀.threads.length ≤ i) (hi : s₁.threads[i]? = some t)
    (hcall : t.call = some (.remove key)) (hpc : t.pc = .returned .ok)
    (hstart' : s₁.threads.length ≤ j) (hj : s₂.threads[j]? = some t')
    (hcall' : t'.call = some (.getOrFetch spec)) (hpc' : t'.pc = .returned (.response r true))
    (hkey : spec.normalized.key = key) :
    ∃ made, s₂.published = made ++ s₀.published ∧
      ∃ p ∈ made, p.key = key ∧ r = p.manifest.response p.body := by
  have hthread := doneSince_of_run h hremove i t _ key _ hstart hi hcall rfl
  rw [hpc] at hthread
  obtain ⟨d, htod, hfromd, hnone⟩ := hthread
  have htook := tookSince_of_run (h.trans hremove) hread j t' hstart' hj
  rw [hpc', Thread.asks, hcall'] at htook
  obtain ⟨key', hasks, p, hp, rfl, ⟨u, hto, hfrom, hm⟩, rfl⟩ := htook
  have hspec : p.key = key := (Option.some.inj hasks).symm.trans hkey
  obtain ⟨made, hmade, q, hq, hqkey, hqm⟩ :=
    published_since hnone (hfromd.trans hto) (hspec ▸ hm)
  obtain ⟨before, hbefore⟩ := published_suffix htod
  obtain ⟨later, hlater⟩ := published_suffix hfrom
  have hqmem : q ∈ s₂.published := by
    rw [← hlater, hmade]
    simp [hq]
  obtain ⟨-, hbody⟩ := (sound_of_run ((h.trans hremove).trans hread)).publication_unique hqmem hp
    (by rw [hqm])
  refine ⟨later ++ (made ++ before), ?_, q, by simp [hq], hqkey, by rw [hqm, hbody]⟩
  rw [← hlater, hmade, ← hbefore, List.append_assoc, List.append_assoc]

/-- The `GetOrFetch` after `Warm` hands out what it has published. -/
theorem reads_follow_writes_sample : ∃ s₁ s₂ : State Unit,
    ∃ (p p' : Publication) (newer older : List Publication), PublishedBy init s₁ 0 p ∧
      p.key = sampleSpec.normalized.key ∧ p.operation = .warm ∧
      sampleResponse = p'.manifest.response p'.body ∧ p'.key = sampleSpec.normalized.key ∧
      s₂.published = newer ++ p' :: older ∧ p ∈ p' :: older := by
  have hwarm : (exec step (init : State Unit) (warmThenHit.take 10)).map (fun s =>
      (s.threads.length, s.threads[0]?.map fun t => (t.call, t.pc))) =
      some (1, some (some (.warm sampleSpec), .returned .ok)) := by decide +kernel
  obtain ⟨s₁, hs₁, hobs⟩ := Option.map_eq_some_iff.mp hwarm
  obtain ⟨hlength, hobs⟩ := Prod.mk.inj hobs
  obtain ⟨t, ht, hobs⟩ := Option.map_eq_some_iff.mp hobs
  obtain ⟨hcall, hpc⟩ := Prod.mk.inj hobs
  have hhit : ((exec step (init : State Unit) (warmThenHit.take 10)).bind fun s =>
      exec step s (warmThenHit.drop 10)).map (fun s => s.threads[1]?.map fun t =>
      (t.call, t.pc)) =
      some (some (some (.getOrFetch sampleSpec), .returned (.response sampleResponse true))) := by
    decide +kernel
  rw [hs₁, Option.bind_some] at hhit
  obtain ⟨s₂, hs₂, hobs⟩ := Option.map_eq_some_iff.mp hhit
  obtain ⟨t', ht', hobs⟩ := Option.map_eq_some_iff.mp hobs
  obtain ⟨hcall', hpc'⟩ := Prod.mk.inj hobs
  have hrun : Run step (fun _ a => a.atomic) (init : State Unit) s₁ :=
    Run.of_exec (fun a ha => atomic_warmThenHit a (List.mem_of_mem_take ha)) hs₁
  have hrest : Run step (fun _ a => a.atomic) s₁ s₂ :=
    Run.of_exec (fun a ha => atomic_warmThenHit a (List.mem_of_mem_drop ha)) hs₂
  exact ⟨s₁, s₂, reads_follow_writes .refl hrun hrest (Nat.zero_le _) ht hcall (by decide) hpc
    (Nat.le_of_eq hlength) ht' hcall' hpc' rfl⟩

/-- `Remove`, after a `Warm`. -/
def thenRemove : List (Action Unit) :=
  .start () (.remove sampleSpec.key) none :: List.replicate 5 (.run 1 .ok none)

/-- Another `Warm` and a `GetOrFetch`. -/
def thenWarmAndHit : List (Action Unit) :=
  .start () (.warm sampleSpec) none ::
    List.replicate 9 (.run 2 .ok (some { sampleResponse with body := [7] })) ++
    .start () (.getOrFetch sampleSpec) none :: List.replicate 5 (.run 3 .ok none)

/-- The `GetOrFetch` hands out what the second `Warm` has published. -/
theorem reads_follow_removals_sample : ∃ s₀ s₂ : State Unit,
    ∃ made, s₂.published = made ++ s₀.published ∧ ∃ p ∈ made, p.key = sampleSpec.normalized.key ∧
      { sampleResponse with body := [7] } = p.manifest.response p.body := by
  have hwarm : (exec step (init : State Unit) (warmThenHit.take 10)).map (fun s =>
      s.threads.length) = some 1 := by decide +kernel
  obtain ⟨s₀, hs₀, hlength⟩ := Option.map_eq_some_iff.mp hwarm
  have hremove : ((exec step (init : State Unit) (warmThenHit.take 10)).bind fun s =>
      exec step s thenRemove).map (fun s =>
      (s.threads.length, s.threads[1]?.map fun t => (t.call, t.pc))) =
      some (2, some (some (.remove sampleSpec.normalized.key), .returned .ok)) := by
    decide +kernel
  have hhit : (((exec step (init : State Unit) (warmThenHit.take 10)).bind fun s =>
      exec step s thenRemove).bind fun s => exec step s thenWarmAndHit).map (fun s =>
      s.threads[3]?.map fun t => (t.call, t.pc)) =
      some (some (some (.getOrFetch sampleSpec),
        .returned (.response { sampleResponse with body := [7] } true))) := by decide +kernel
  rw [hs₀, Option.bind_some] at hremove hhit
  obtain ⟨s₁, hs₁, hobs⟩ := Option.map_eq_some_iff.mp hremove
  obtain ⟨hlength', hobs⟩ := Prod.mk.inj hobs
  obtain ⟨t, ht, hobs⟩ := Option.map_eq_some_iff.mp hobs
  obtain ⟨hcall, hpc⟩ := Prod.mk.inj hobs
  rw [hs₁, Option.bind_some] at hhit
  obtain ⟨s₂, hs₂, hobs⟩ := Option.map_eq_some_iff.mp hhit
  obtain ⟨t', ht', hobs⟩ := Option.map_eq_some_iff.mp hobs
  obtain ⟨hcall', hpc'⟩ := Prod.mk.inj hobs
  have hatomic : ∀ a ∈ thenRemove ++ thenWarmAndHit, ∀ _ : State Unit, a.atomic := by
    simp [thenRemove, thenWarmAndHit, Action.atomic, Action.plain, Call.plain]
  have hbefore : Run step (fun _ a => a.atomic) (init : State Unit) s₀ :=
    Run.of_exec (fun a ha => atomic_warmThenHit a (List.mem_of_mem_take ha)) hs₀
  have hrun : Run step (fun _ a => a.atomic) s₀ s₁ :=
    Run.of_exec (fun a ha => hatomic a (List.mem_append_left _ ha)) hs₁
  have hrest : Run step (fun _ a => a.atomic) s₁ s₂ :=
    Run.of_exec (fun a ha => hatomic a (List.mem_append_right _ ha)) hs₂
  exact ⟨s₀, s₂, reads_follow_removals hbefore hrun hrest (Nat.le_of_eq hlength) ht hcall hpc
    (by omega) ht' hcall' hpc' rfl⟩

end IptvProxy.Cache
