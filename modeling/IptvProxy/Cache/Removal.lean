import IptvProxy.Cache.Simulation
import IptvProxy.Cache.Upkeep

/-!
# Removed entries

`Remove` stops the timer of a key and forgets the key, but it tells nobody. An operation of the key
that is in flight at that moment goes on (`Pc.Renews`): a timer callback that does not get the lock
from `Remove` arms the next timer (`removed_key_keeps_timer`), a request that was reading registers
the key, and a replacement that waited for the lock publishes it. `remove_permanent` says that a
removal that meets no such operation is permanent.
-/

namespace IptvProxy.Cache

open Agents Transition

variable {s s' : State Unit} {i j : ℕ} {t u : Thread Unit} {o : Outcome}
  {fetched : Option Response} {key : String}

/-- The operation may still register the key, publish it or arm a timer for it. -/
def Pc.Renews (key : String) : Pc → Prop
  | .get _ caller => caller.spec.key = key
  | .getBody _ _ caller => caller.spec.key = key
  | .getChunk _ _ _ _ _ caller => caller.spec.key = key
  | .releaseReader _ _ next => next.Renews key
  | .cleanup _ _ _ _ _ next => next.Renews key
  | .expire _ _ _ _ _ next => next.Renews key
  | .getRegister spec _ => spec.key = key
  | .scheduleFromMeta spec _ next => spec.key = key ∨ next.Renews key
  | .schedule spec _ next => spec.key = key ∨ next.Renews key
  | .refillMissing spec => spec.key = key
  | .registerLoad spec next => spec.key = key ∨ next.Renews key
  | .register spec _ next => spec.key = key ∨ next.Renews key
  | .warm spec => spec.key = key
  | .acquire spec _ => spec.key = key
  | .loadOld job => job.spec.key = key
  | .fetch job => job.spec.key = key
  | .writeChunk job _ _ => job.spec.key = key
  | .stamp job _ => job.spec.key = key
  | .swap job _ _ => job.spec.key = key
  | .unlock _ _ next => next.Renews key
  | .migrateLoad _ spec => spec.key = key
  | .migratePublish _ spec _ => spec.key = key
  | .migrateRegister _ spec => spec.key = key
  | _ => False

/-- The replacement is the publication of `MigrateLegacy`, which registers afterwards. -/
def Job.Migrates (job : Job) : Prop := ∃ oldKey, job.operation = .migrate oldKey

/-- It has yet to register the key. -/
def Pc.Entering (key : String) : Pc → Prop
  | .get _ caller => caller.spec.key = key
  | .getBody _ _ caller => caller.spec.key = key
  | .getChunk _ _ _ _ _ caller => caller.spec.key = key
  | .releaseReader _ _ next => next.Entering key
  | .cleanup _ _ _ _ _ next => next.Entering key
  | .expire _ _ _ _ _ next => next.Entering key
  | .getRegister spec _ => spec.key = key
  | .registerLoad spec _ => spec.key = key
  | .register spec _ _ => spec.key = key
  | .warm spec => spec.key = key
  | .writeChunk job _ _ => job.Migrates ∧ job.spec.key = key
  | .stamp job _ => job.Migrates ∧ job.spec.key = key
  | .swap job _ _ => job.Migrates ∧ job.spec.key = key
  | .migrateLoad _ spec => spec.key = key
  | .migratePublish _ spec _ => spec.key = key
  | .migrateRegister _ spec => spec.key = key
  | _ => False

/-! ## The guards -/

/-- A key is forgotten only while no other operation of it is in flight. -/
def Action.orderly (s : State Unit) : Action Unit → Prop
  | .run i o _ => ∀ t key, s.threads[i]? = some t → t.pc.Forgets (t.under s.now o) key →
      ∀ j u, j ≠ i → s.threads[j]? = some u → ¬ u.pc.Renews key
  | _ => True

/-- The call is one of `GetOrFetch`, `Register`, `Warm`, `Purge` or `MigrateLegacy` for the key. -/
def Call.renews (key : String) : Call → Prop
  | .getOrFetch spec => spec.normalized.key = key
  | .register spec => spec.normalized.key = key
  | .warm spec => spec.normalized.key = key
  | .purge key' => key' = key
  | .remove _ => False
  | .migrateLegacy _ spec => spec.normalized.key = key

/-- No operation for the key is started. -/
def Action.leaves (key : String) : Action Unit → Prop
  | .start _ call _ => ¬ call.renews key
  | _ => True

/-! ## How an operation comes to renew a key -/

section Renews

variable {spec : Spec} {job : Job} {next : Pc}

theorem Pc.renews_cleanupGeneration {key' : String} {g n : ℕ} {background : Bool}
    (h : (Pc.cleanupGeneration key' g n background next).Renews key) : next.Renews key := by
  rw [Pc.cleanupGeneration] at h
  split at h <;> exact h

theorem Pc.renews_expireGenerationFallback {key' : String} {g n : ℕ} {background : Bool}
    (h : (Pc.expireGenerationFallback key' g n background next).Renews key) : next.Renews key := by
  rw [Pc.expireGenerationFallback] at h
  split at h <;> exact h

theorem Pc.entering_cleanupGeneration (h : next.Entering key) (key' : String) (g n : ℕ)
    (background : Bool) : (Pc.cleanupGeneration key' g n background next).Entering key := by
  rw [Pc.cleanupGeneration]
  split <;> exact h

theorem Pc.entering_expireGenerationFallback (h : next.Entering key) (key' : String) (g n : ℕ)
    (background : Bool) : (Pc.expireGenerationFallback key' g n background next).Entering key := by
  rw [Pc.expireGenerationFallback]
  split <;> exact h

/-- Only a timer callback does something for its key when it fails. -/
theorem Operation.renews_failed {operation : Operation} {e : Error}
    (h : (operation.failed spec e).Renews key) : operation = .refresh ∧ spec.key = key := by
  cases operation with
  | refresh => exact ⟨rfl, h.resolve_right id⟩
  | _ => exact h.elim

theorem Job.renews_failed {e : Error} (h : (job.failed e).Renews key) :
    job.operation = .refresh ∧ job.spec.key = key := by
  rw [Job.failed] at h
  split at h
  · exact h.elim
  · exact Operation.renews_failed h

theorem Job.not_migrates (hop : job.operation = .refresh) : ¬ job.Migrates := by
  rintro ⟨oldKey, hm⟩
  rw [hop] at hm
  cases hm

theorem Job.renews_staging {staged : Staged} {n : ℕ} (h : (job.staging staged n).Renews key) :
    job.spec.key = key := by
  rw [Job.staging] at h
  split at h <;> exact h

theorem Job.entering_staging {staged : Staged} (hm : job.Migrates) (hk : job.spec.key = key)
    (n : ℕ) : (job.staging staged n).Entering key := by
  rw [Job.staging]
  split <;> exact ⟨hm, hk⟩

theorem Job.renews_published (h : job.published.Renews key) : job.spec.key = key := by
  rw [Job.published] at h
  split at h
  · exact h
  · exact h.resolve_right id

theorem Job.entering_published (h : job.Migrates ∧ job.spec.key = key) :
    job.published.Entering key := by
  obtain ⟨⟨oldKey, hop⟩, hk⟩ := h
  rw [Job.published, hop]
  exact hk

/-- `registerEntry` for `MigrateLegacy`, which deletes the old entry afterwards. -/
theorem renews_registerEntry {oldKey : String}
    (h : (registerEntry spec (.duplicateLoad oldKey)).Renews key) :
    spec.key = key ∧ (registerEntry spec (.duplicateLoad oldKey)).Entering key := by
  revert h
  rw [registerEntry]
  split
  · exact False.elim
  · split
    · exact False.elim
    · exact fun h => ⟨h.resolve_right id, h.resolve_right id⟩

end Renews

/-- How thread `i` comes to renew the key, if it was `t` before its section and is `u` after it. -/
inductive Resumes (s : State Unit) (t : Thread Unit) (key : String) (u : Pc) : Prop where
  /-- it did so before -/
  | stays (hr : t.pc.Renews key) (he : t.pc.Entering key → u.Entering key)
  /-- it has registered the key -/
  | registers (hpc : t.pc.Registers key)
  /-- `Purge` has found it registered -/
  | finds (hpc : ∃ key, t.pc = .replaceNow key) (hs : ((s.mgr ()).specs key).isSome = true)

theorem Moves.resumes {pc pc' : Pc} (h : Moves s t o pc pc') (hpc : t.pc = pc)
    (hr : pc'.Renews key) : Resumes s t key pc' := by
  have hstays : pc.Renews key → (pc.Entering key → pc'.Entering key) → Resumes s t key pc' := by
    rintro hr he
    rw [← hpc] at hr he
    exact .stays hr he
  -- a replacement that fails and still renews the key is a timer callback
  have hfails : ∀ {job : Job}, (pc.Renews key ↔ job.spec.key = key) →
      (pc.Entering key → job.Migrates) → job.operation = .refresh ∧ job.spec.key = key →
      Resumes s t key pc' := by
    rintro job hiff he ⟨hop, hkey⟩
    exact hstays (hiff.mpr hkey) fun h => absurd (he h) (Job.not_migrates hop)
  cases h with
  | @getMissing _ caller | @getBodyMissing _ _ caller =>
    cases caller with
    | getOrFetch => exact hstays hr id
    | migrate => exact hr.elim
  | @getBodyFound _ _ caller | @getChunkDone _ _ _ _ _ caller =>
    cases caller <;> exact hstays hr id
  | getLegacy | getChunkNext => exact hstays hr id
  | cleanupFailed | expireFailed =>
    split at hr
    · next hlt => exact hstays hr fun he => by rw [if_pos hlt]; exact he
    · next hlt => exact hstays hr fun he => by rw [if_neg hlt]; exact he
  | scheduleFromMeta => exact hstays hr False.elim
  | registerLoadFound => exact hstays hr id
  | loadOldFill | loadOld => exact hstays hr False.elim
  | stamp => exact hstays hr id
  | unlockFailed => exact hstays hr False.elim
  | loadOldFailed | fetchFailed => exact hfails Iff.rfl False.elim (Job.renews_failed hr)
  | writeChunkFailed | swapFailed =>
    exact hfails Iff.rfl And.left (Job.renews_failed (Pc.renews_cleanupGeneration hr))
  | migrateLoadFound =>
    obtain ⟨hkey, he⟩ := renews_registerEntry hr
    exact hstays hkey fun _ => he
  | migrateLoadMissing => exact hstays hr id
  | duplicateLoadSome => exact (Pc.renews_cleanupGeneration hr).elim
  | _ => exact hr.elim

theorem Ran.resumes (h : Ran s i t o s') (hi : s.threads[i]? = some t)
    (hkeyed : (s.mgr t.pid).Keyed) :
    ∃ u, s'.threads[i]? = some u ∧ ∀ key, u.pc.Renews key → Resumes s t key u.pc := by
  have hset : ∀ {u : Thread Unit}, s'.threads = s.threads.set i u →
      (∀ key, u.pc.Renews key → Resumes s t key u.pc) →
      ∃ u, s'.threads[i]? = some u ∧ ∀ key, u.pc.Renews key → Resumes s t key u.pc := by
    intro u hu hresumes
    exact ⟨u, getElem?_of_eq_set hu hi, hresumes⟩
  have hstays : ∀ {key : String} {pc pc' : Pc}, t.pc = pc → pc.Renews key →
      (pc.Entering key → pc'.Entering key) → Resumes s t key pc' := by
    rintro key pc pc' rfl hr he
    exact .stays hr he
  have hregisters : ∀ {key : String} {pc pc' : Pc}, t.pc = pc → pc.Registers key →
      Resumes s t key pc' := by
    rintro key pc pc' rfl hreg
    exact .registers hreg
  have hfails : ∀ {key : String} {job : Job} {pc pc' : Pc}, t.pc = pc →
      (pc.Renews key ↔ job.spec.key = key) → (pc.Entering key → job.Migrates) →
      job.operation = .refresh ∧ job.spec.key = key → Resumes s t key pc' := by
    rintro key job pc pc' hpc hiff he ⟨hop, hkey⟩
    exact hstays hpc (hiff.mpr hkey) fun h => absurd (he h) (Job.not_migrates hop)
  cases h with
  | move hpc hm => exact hset rfl fun key hr => hm.resumes hpc hr
  | pin hpc => exact hset rfl fun key hr => hstays hpc hr id
  | @unpin key' g next hpc =>
    refine hset rfl fun key hr => ?_
    dsimp only at hr ⊢
    split at hr
    · exact hstays hpc hr id
    · have hnext : next.Renews key := Pc.renews_cleanupGeneration hr
      exact hstays hpc hnext fun he =>
        Pc.entering_cleanupGeneration (show next.Entering key from he) ..
  | cleanup hpc | expire hpc =>
    refine hset rfl fun key hr => ?_
    dsimp only at hr ⊢
    split at hr
    · next hlt => exact hstays hpc hr fun he => by rw [if_pos hlt]; exact he
    · next hlt => exact hstays hpc hr fun he => by rw [if_neg hlt]; exact he
  | registerHit hpc =>
    refine hset rfl fun key hr => hregisters hpc ?_
    exact (hkeyed.registerIfAbsent rfl).2.symm.trans (hr.resolve_right id)
  | registerMiss => exact ⟨_, getElem?_append_of_some (getElem?_set_of_some hi), fun _ hr => hr.elim⟩
  | schedule hpc => exact hset rfl fun key hr => hstays hpc (.inr hr) False.elim
  | refill hpc => exact hset rfl fun key hr => hstays hpc hr False.elim
  | @register spec info next hpc =>
    refine hset rfl fun key hr => ?_
    by_cases hkey : spec.key = key
    · exact hregisters hpc hkey
    · exact hstays hpc hr fun he => absurd he hkey
  | warm hpc =>
    refine hset rfl fun key hr => hregisters hpc ?_
    exact (hkeyed.registerIfAbsent rfl).2.symm.trans hr
  | @purge key' spec hpc hs =>
    refine hset rfl fun key hr => .finds ⟨key', hpc⟩ ?_
    have hkey : key' = key := (hkeyed.specs hs).symm.trans hr
    rw [← hkey]
    exact Option.isSome_iff_exists.mpr ⟨spec, hs⟩
  | acquireFailed hpc =>
    exact hset (State.attempted_setThread ..) fun key hr =>
      hstays hpc (Operation.renews_failed hr).2 False.elim
  | acquired hpc =>
    exact hset (State.attempted_setThread ..) fun key hr => hstays hpc hr False.elim
  | removeAcquireFailed | removeAcquired =>
    exact hset (State.attempted_setThread ..) fun key hr => hr.elim
  | stage hpc => exact hset rfl fun key hr => hstays hpc (Job.renews_staging hr) False.elim
  | writeChunk hpc =>
    refine hset rfl fun key hr => ?_
    dsimp only at hr ⊢
    split at hr
    · next hreplied =>
      refine hstays hpc (Job.renews_staging hr) fun he => ?_
      rw [if_pos hreplied]
      exact Job.entering_staging he.1 he.2 _
    · exact hfails hpc Iff.rfl And.left (Job.renews_failed (Pc.renews_cleanupGeneration hr))
  | swapLost hpc =>
    exact hset rfl fun key hr =>
      hfails hpc Iff.rfl And.left (Job.renews_failed (Pc.renews_cleanupGeneration hr))
  | swapFirst hpc =>
    exact hset rfl fun key hr => hstays hpc (Job.renews_published hr) Job.entering_published
  | swapWaits hpc =>
    exact hset rfl fun key hr =>
      hstays hpc (Job.renews_published (Pc.renews_expireGenerationFallback hr)) fun he =>
        Pc.entering_expireGenerationFallback (Job.entering_published he) ..
  | swapClears hpc =>
    exact hset rfl fun key hr =>
      hstays hpc (Job.renews_published (Pc.renews_cleanupGeneration hr)) fun he =>
        Pc.entering_cleanupGeneration (Job.entering_published he) ..
  | unlock hpc => exact hset rfl fun key hr => hstays hpc hr False.elim
  | removeWaits => exact hset rfl fun key hr => (Pc.renews_expireGenerationFallback hr).elim
  | removeClears => exact hset rfl fun key hr => (Pc.renews_cleanupGeneration hr).elim
  | @migratePublish oldKey _ _ hpc =>
    refine hset rfl fun key hr => ?_
    have hkey := Job.renews_staging hr
    exact hstays hpc hkey fun _ => Job.entering_staging ⟨oldKey, rfl⟩ hkey _
  | migrateRegister hpc => exact hset rfl fun key hr => hregisters hpc (hr.resolve_right id)
  | _ => exact hset rfl fun key hr => hr.elim

/-- The other operations stay; a refill that is started belongs to a request that registers. -/
theorem Ran.others_renew (h : Ran s i t o s') (hkeyed : (s.mgr t.pid).Keyed)
    (hj : s'.threads[j]? = some u) (hji : j ≠ i) (hr : u.pc.Renews key) :
    s.threads[j]? = some u ∨ t.pc.Registers key := by
  have hset : ∀ {t' : Thread Unit}, (s.threads.set i t')[j]? = some u →
      s.threads[j]? = some u ∨ t.pc.Registers key := by
    intro t' hu
    rcases getElem?_set_cases hu with ⟨heq, -⟩ | ⟨-, hold⟩
    · exact absurd heq hji
    · exact .inl hold
  cases h with
  | registerMiss hpc =>
    rcases getElem?_append_cases hj with hu | rfl
    · exact hset hu
    · refine .inr ?_
      rw [hpc]
      exact (hkeyed.registerIfAbsent rfl).2.symm.trans hr
  | acquireFailed | acquired | removeAcquireFailed | removeAcquired =>
    rw [State.goto, State.attempted_setThread] at hj
    exact hset hj
  | _ => exact hset hj

/-! ## Timers belong to registered keys -/

/-- A key with a timer is registered, and so is a key that an operation renews, unless that
operation has yet to register it. -/
structure State.Tidy (s : State Unit) : Prop where
  /-- specs and timers are kept under their keys -/
  keyed : (s.mgr ()).Keyed
  /-- the operations -/
  renewed : ∀ {i : ℕ} {t : Thread Unit} {key : String}, s.threads[i]? = some t →
    t.pc.Renews key → ((s.mgr ()).specs key).isSome = true ∨ t.pc.Entering key
  /-- the timers -/
  timers : ∀ {key tm}, (s.mgr ()).timers key = some tm → ((s.mgr ()).specs key).isSome = true

theorem Pc.renews_of_schedules {pc : Pc} (h : pc.Schedules key) :
    pc.Renews key ∧ ¬ pc.Entering key := by
  cases pc with
  | schedule => exact ⟨.inl h, id⟩
  | _ => exact h.elim

theorem Pc.renews_of_registers {pc : Pc} (h : pc.Registers key) : pc.Renews key := by
  cases pc with
  | register => exact .inl h
  | getRegister | warm | migrateRegister => exact h
  | _ => exact h.elim

/-- What forgets a key does not go on with another operation of it. -/
theorem Pc.not_forgets_of_renews {pc : Pc} {o' : Outcome} {key' : String} (h : pc.Renews key) :
    ¬ pc.Forgets o' key' := by
  cases pc with
  | removeDel | duplicateForget => exact h.elim
  | _ => exact id

/-- A registered key is forgotten only by a section that forgets it. -/
theorem Ran.registered (h : Ran s i t o s') (hspec : ((s.mgr ()).specs key).isSome = true) :
    ((s'.mgr ()).specs key).isSome = true ∨ t.pc.Forgets (t.under s.now o) key := by
  cases h.updates key () with
  | same hspecs | arms _ _ hspecs =>
    rw [hspecs]
    exact .inl hspec
  | registers _ _ hspecs => exact .inl hspecs
  | forgets _ hpc => exact .inr hpc

theorem tidy_of_ran (h : Ran s i t o s') (hi : s.threads[i]? = some t)
    (ha : Action.orderly s (.run i o fetched)) (hs : s.Tidy) : s'.Tidy := by
  have hkeep : ∀ {key : String}, ((s.mgr ()).specs key).isSome = true →
      ¬ t.pc.Forgets (t.under s.now o) key → ((s'.mgr ()).specs key).isSome = true :=
    fun hspec hno => (h.registered hspec).resolve_right hno
  have hregisters : ∀ {key : String}, t.pc.Registers key →
      ((s'.mgr ()).specs key).isSome = true :=
    fun hpc => (h.of_registers hi hs.keyed hpc).1
  refine ⟨h.keyed (fun _ => hs.keyed) (), fun {j u key} hj hr => ?_, fun {key tm} htm => ?_⟩
  · by_cases hji : j = i
    · subst hji
      obtain ⟨u', hu', hresumes⟩ := h.resumes hi hs.keyed
      rw [hj] at hu'
      obtain rfl := Option.some.inj hu'
      cases hresumes key hr with
      | stays hr he =>
        exact (hs.renewed hi hr).imp (hkeep · (Pc.not_forgets_of_renews hr)) he
      | registers hpc => exact .inl (hregisters hpc)
      | finds hpc hspec =>
        obtain ⟨key', hpc⟩ := hpc
        refine .inl (hkeep hspec ?_)
        rw [hpc]
        exact id
    · rcases h.others_renew hs.keyed hj hji hr with hj' | hpc
      · rcases hs.renewed hj' hr with hspec | he
        · exact .inl (hkeep hspec fun hforgets => ha t key hi hforgets j u hji hj' hr)
        · exact .inr he
      · exact .inl (hregisters hpc)
  · cases h.updates key () with
    | same hspecs htimers =>
      rw [htimers] at htm
      rw [hspecs]
      exact hs.timers htm
    | registers _ _ hspecs => exact hspecs
    | arms _ hpc hspecs =>
      obtain ⟨hr, he⟩ := Pc.renews_of_schedules hpc
      rw [hspecs]
      exact (hs.renewed hi hr).resolve_right he
    | forgets _ _ _ htimers =>
      rw [htimers] at htm
      cases htm

theorem Call.renews_entry {call : Call} (hr : call.entry.Renews key) :
    call.entry.Entering key ∧ call.renews key := by
  have h := call.enters
  generalize call.entry = pc at h hr
  cases h with
  | get | warm | migrate => exact ⟨hr, hr⟩
  | register | migrateRegister => exact ⟨hr.resolve_right id, hr.resolve_right id⟩
  | _ => exact hr.elim

theorem tidy_of_step {a : Action Unit} (h : Steps s a s') (ha : a.orderly s) (hs : s.Tidy) :
    s'.Tidy := by
  have hkeyed := h.keyed fun _ => hs.keyed
  cases h with
  | start =>
    refine ⟨hs.keyed, fun {j u key} hj hr => ?_, hs.timers⟩
    rcases getElem?_append_cases hj with hj | rfl
    · exact hs.renewed hj hr
    · exact .inr (Call.renews_entry hr).1
  | run hi h => exact tidy_of_ran h hi ha hs
  | @fire p key tm htm =>
    have hspecs : ∀ (m : Manager) (key' : String), m.specs = (s.mgr ()).specs →
        ((s.mgr ()).specs key').isSome = true →
        ((Function.update s.mgr p m ()).specs key').isSome = true := by
      intro m key' hm hspec
      rw [Function.update_self, hm]
      exact hspec
    refine ⟨hkeyed (), fun {j u key'} hj hr => ?_, fun {key' tm'} htm' => ?_⟩
    · rcases getElem?_append_cases hj with hj | rfl
      · exact (hs.renewed hj hr).imp_left (hspecs _ key' rfl)
      · refine .inl (hspecs _ key' rfl ?_)
        rw [← show tm.spec.key = key' from hr, hs.keyed.timers htm]
        exact hs.timers htm
    · refine hspecs _ key' rfl ?_
      change (Function.update s.mgr p _ ()).timers key' = some tm' at htm'
      rw [Function.update_self] at htm'
      change Function.update (s.mgr p).timers key _ key' = some tm' at htm'
      by_cases hkey : key' = key
      · rw [hkey]
        exact hs.timers htm
      · rw [Function.update_of_ne hkey] at htm'
        exact hs.timers htm'
  | release =>
    refine ⟨hs.keyed, fun {j u key} hj hr => ?_, hs.timers⟩
    rcases getElem?_set_cases hj with ⟨-, rfl⟩ | ⟨-, hj⟩
    · exact hr.elim
    · exact hs.renewed hj hr
  | releaseAgain | tick => exact ⟨hs.keyed, hs.renewed, hs.timers⟩
  | @cancel i t hi _ =>
    refine ⟨hs.keyed, fun {j u key} hj hr => ?_, hs.timers⟩
    rcases getElem?_set_cases hj with ⟨-, rfl⟩ | ⟨-, hj⟩
    · have hrenewed := hs.renewed hi (show t.pc.Renews key from hr)
      exact hrenewed
    · exact hs.renewed hj hr
  | @restart p =>
    refine ⟨hkeyed (), fun {j u key} hj hr => ?_, fun {key tm} htm => ?_⟩
    · obtain ⟨v, -, rfl⟩ := stepRestart_thread hj
      exact hr.elim
    · change (Function.update s.mgr p newManager ()).timers key = some tm at htm
      rw [Function.update_self] at htm
      cases htm

/-! ## What is gone stays gone -/

/-- The key has no entry, no spec and no timer, and no operation of it is in flight. -/
structure State.Gone (s : State Unit) (key : String) : Prop where
  /-- specs and timers are kept under their keys -/
  keyed : (s.mgr ()).Keyed
  /-- no entry -/
  manifest : s.redis.loadManifest key = none
  /-- no spec -/
  specs : (s.mgr ()).specs key = none
  /-- no timer -/
  timers : (s.mgr ()).timers key = none
  /-- no operation -/
  threads : ∀ {i : ℕ} {t : Thread Unit}, s.threads[i]? = some t → ¬ t.pc.Renews key

theorem Thread.renews_of_publishes (h : t.Publishes s o key) : t.pc.Renews key := by
  rw [Thread.Publishes] at h
  split at h
  · next hpc =>
    rw [hpc]
    exact h.1
  · exact h.elim

theorem gone_of_ran (h : Ran s i t o s') (hi : s.threads[i]? = some t) (hs : s.Gone key) :
    s'.Gone key := by
  have hregisters : ¬ t.pc.Registers key :=
    fun hpc => hs.threads hi (Pc.renews_of_registers hpc)
  have hmanifest : s'.redis.loadManifest key = none := by
    cases hm : s'.redis.loadManifest key with
    | none => rfl
    | some m =>
      have hsome : (s'.redis.loadManifest key).isSome = true := by
        rw [hm]
        rfl
      rcases h.stored_or_published hsome with hstored | hp
      · rw [hs.manifest] at hstored
        cases hstored
      · exact absurd (Thread.renews_of_publishes hp) (hs.threads hi)
  have hmemory : (s'.mgr ()).specs key = none ∧ (s'.mgr ()).timers key = none := by
    cases h.updates key () with
    | same hspecs htimers => exact ⟨hspecs.trans hs.specs, htimers.trans hs.timers⟩
    | registers _ hpc => exact absurd hpc hregisters
    | arms _ hpc => exact absurd (Pc.renews_of_schedules hpc).1 (hs.threads hi)
    | forgets _ _ hspecs htimers => exact ⟨hspecs, htimers⟩
  refine ⟨h.keyed (fun _ => hs.keyed) (), hmanifest, hmemory.1, hmemory.2, fun {j u} hj hr => ?_⟩
  by_cases hji : j = i
  · subst hji
    obtain ⟨u', hu', hresumes⟩ := h.resumes hi hs.keyed
    rw [hj] at hu'
    obtain rfl := Option.some.inj hu'
    cases hresumes key hr with
    | stays hr => exact hs.threads hi hr
    | registers hpc => exact hregisters hpc
    | finds _ hspec =>
      rw [hs.specs] at hspec
      cases hspec
  · rcases h.others_renew hs.keyed hj hji hr with hj' | hpc
    · exact hs.threads hj' hr
    · exact hregisters hpc

theorem gone_of_step {a : Action Unit} (h : Steps s a s') (ha : a.leaves key) (hs : s.Gone key) :
    s'.Gone key := by
  have hkeyed := h.keyed fun _ => hs.keyed
  cases h with
  | start =>
    refine ⟨hs.keyed, hs.manifest, hs.specs, hs.timers, fun {j u} hj hr => ?_⟩
    rcases getElem?_append_cases hj with hj | rfl
    · exact hs.threads hj hr
    · exact ha (Call.renews_entry hr).2
  | run hi h => exact gone_of_ran h hi hs
  | @fire p key' tm htm =>
    have hne : key ≠ key' := by
      rintro rfl
      rw [hs.timers] at htm
      cases htm
    refine ⟨hkeyed (), hs.manifest, ?_, ?_, fun {j u} hj hr => ?_⟩
    · change (Function.update s.mgr p _ ()).specs key = none
      rw [Function.update_self]
      exact hs.specs
    · change (Function.update s.mgr p _ ()).timers key = none
      rw [Function.update_self]
      exact (Function.update_of_ne hne ..).trans hs.timers
    · rcases getElem?_append_cases hj with hj | rfl
      · exact hs.threads hj hr
      · exact hne ((show tm.spec.key = key from hr).symm.trans (hs.keyed.timers htm))
  | release =>
    refine ⟨hs.keyed, hs.manifest, hs.specs, hs.timers, fun {j u} hj hr => ?_⟩
    rcases getElem?_set_cases hj with ⟨-, rfl⟩ | ⟨-, hj⟩
    · exact hr
    · exact hs.threads hj hr
  | releaseAgain | tick => exact ⟨hs.keyed, hs.manifest, hs.specs, hs.timers, hs.threads⟩
  | @cancel i t hi _ =>
    refine ⟨hs.keyed, hs.manifest, hs.specs, hs.timers, fun {j u} hj hr => ?_⟩
    rcases getElem?_set_cases hj with ⟨-, rfl⟩ | ⟨-, hj⟩
    · exact hs.threads hi (show t.pc.Renews key from hr)
    · exact hs.threads hj hr
  | @restart p =>
    refine ⟨hkeyed (), hs.manifest, ?_, ?_, fun {j u} hj hr => ?_⟩
    · change (Function.update s.mgr p newManager ()).specs key = none
      rw [Function.update_self]
      rfl
    · change (Function.update s.mgr p newManager ()).timers key = none
      rw [Function.update_self]
      rfl
    · obtain ⟨v, -, rfl⟩ := stepRestart_thread hj
      exact hr

/-- A `Remove` whose `DEL` is answered leaves nothing of the key. -/
theorem gone_of_removeDel {opID : ℕ} {m : Option Manifest} (hi : s.threads[i]? = some t)
    (hpc : t.pc = .removeDel key opID m) (ho : (t.under s.now o).replied = true)
    (ha : Action.orderly s (.run i o fetched)) (hstep : step s (.run i o fetched) = some s')
    (hkeyed : (s.mgr ()).Keyed) : s'.Gone key := by
  have hothers : ∀ j u, j ≠ i → s.threads[j]? = some u → ¬ u.pc.Renews key := by
    refine ha t key hi ?_
    rw [hpc]
    exact ⟨rfl, ho⟩
  have hgone : ∀ {m' : Manager} {pc : Pc},
      m'.specs = (Manager.forget { s.mgr t.pid with mu := none } key).specs →
      m'.timers = (Manager.forget { s.mgr t.pid with mu := none } key).timers →
      ¬ pc.Renews key → (((s.setHash key none).setMgr t.pid m').goto i t pc).Gone key := by
    intro m' pc hspecs htimers hr
    have hmgr : (((s.setHash key none).setMgr t.pid m').goto i t pc).mgr () = m' := by
      change Function.update s.mgr t.pid m' t.pid = m'
      exact Function.update_self ..
    have hforget := Manager.All.forget
      (show Manager.Keyed { s.mgr t.pid with mu := none } from ⟨hkeyed.specs, hkeyed.timers⟩) key
    refine ⟨?_, ?_, ?_, ?_, fun {j u} hj => ?_⟩
    · rw [hmgr]
      refine ⟨?_, ?_⟩
      · rw [hspecs]
        exact hforget.specs
      · rw [htimers]
        exact hforget.timers
    · change (Function.update s.redis.hash key none key).map Hash.manifest = none
      rw [Function.update_self]
      rfl
    · rw [hmgr, hspecs]
      exact Function.update_self ..
    · rw [hmgr, htimers]
      exact Function.update_self ..
    · rcases getElem?_set_cases hj with ⟨-, rfl⟩ | ⟨hji, hj⟩
      · exact hr
      · exact hothers j u hji hj
  simp only [step, hi, stepThread, hpc, stepRemoveDel, ho, Outcome.applied_of_replied ho,
    if_true] at hstep
  split at hstep
  · obtain rfl := Option.some.inj hstep
    split
    · exact hgone rfl rfl id
    · split
      · exact hgone rfl rfl Pc.renews_expireGenerationFallback
      · exact hgone rfl rfl Pc.renews_cleanupGeneration
  · cases hstep

/-! ## Removals are permanent -/

/-- **A removal is permanent.** In every run in which keys are forgotten only while no other
operation of them is in flight, every key with a timer is registered. If a `Remove` then deletes an
entry, and afterwards no operation for the key is started, the key has no entry, no timer and no
spec in any later state. -/
theorem remove_permanent (h : Run step Action.orderly (init : State Unit) s) :
    (∀ key tm, (s.mgr ()).timers key = some tm → ((s.mgr ()).specs key).isSome = true) ∧
    ∀ i t o fetched key opID m s₁ s₂, s.threads[i]? = some t → t.pc = .removeDel key opID m →
      (t.under s.now o).replied = true → Action.orderly s (.run i o fetched) →
      step s (.run i o fetched) = some s₁ → Run step (fun _ a => a.leaves key) s₁ s₂ →
      s₂.redis.loadManifest key = none ∧ (s₂.mgr ()).timers key = none ∧
        (s₂.mgr ()).specs key = none := by
  have htidy : s.Tidy := by
    refine Run.invariant (I := State.Tidy) ?_ h ⟨⟨fun h => (nomatch h), fun h => (nomatch h)⟩,
      fun h => (nomatch h), fun h => (nomatch h)⟩
    intro s a s' hs ha hstep
    exact tidy_of_step (Steps.of_step hstep) ha hs
  refine ⟨fun key tm => htidy.timers, ?_⟩
  intro i t o fetched key opID m s₁ s₂ hi hpc ho ha hstep hrest
  have hgone : s₂.Gone key := by
    refine Run.invariant (I := fun s => s.Gone key) ?_ hrest
      (gone_of_removeDel hi hpc ho ha hstep htidy.keyed)
    intro s a s' hs ha hstep
    exact gone_of_step (Steps.of_step hstep) ha hs
  exact ⟨hgone.manifest, hgone.timers, hgone.specs⟩

/-- The manifest that `warmArms` publishes. -/
def warmManifest : Manifest := Job.manifest ⟨sampleSpec, .warm, 1, none⟩ ⟨2, sampleResponse⟩ 0

/-- `Remove` is about to delete it. -/
def removes : List (Action Unit) :=
  warmArms ++ [.start () (.remove sampleSpec.key) none, .run 1 .ok none, .run 1 .ok none]

/-- The operations in flight come to an end, and nothing is started. -/
def Action.runs : Action Unit → Prop
  | .run _ _ _ => True
  | _ => False

/-- The section of the action does not forget a key. -/
def tidyStep (s : State Unit) : Action Unit → Bool
  | .run i _ _ => s.threads[i]?.all fun t => match t.pc with
    | .removeDel .. | .duplicateForget .. => false
    | _ => true
  | _ => true

theorem orderly_of_tidyStep {a : Action Unit} (h : tidyStep s a = true) : a.orderly s := by
  cases a with
  | run i o fetched =>
    intro t key hi hforgets
    rw [tidyStep, hi, Option.all_some] at h
    cases hpc : t.pc <;> rw [hpc] at hforgets h <;> first | exact hforgets.elim | cases h
  | _ => trivial

theorem Action.leaves_of_runs {a : Action Unit} (h : a.runs) : a.leaves key := by
  cases a with
  | start => exact h.elim
  | _ => trivial

theorem remove_permanent_sample :
    ∃ s s₁ s₂ : State Unit, Run step Action.orderly init s ∧
      step s (.run 1 .ok none) = some s₁ ∧
      Run step (fun _ a => a.leaves sampleSpec.key) s₁ s₂ ∧
      s₂.threads.map Thread.pc = [.returned .ok, .returned .ok] ∧
      s₂.redis.loadManifest sampleSpec.key = none ∧
      (s₂.mgr ()).timers sampleSpec.key = none ∧ (s₂.mgr ()).specs sampleSpec.key = none := by
  have h : (exec (fun s a => if tidyStep s a then step s a else none) (init : State Unit)
      removes).map (fun s => (s.threads.map Thread.pc,
        s.threads[1]?.map (fun t => (t.under s.now .ok).replied),
        (step s (.run 1 .ok none)).map fun s =>
          (exec step s [.run 1 .ok none, .run 1 .ok none]).map fun s =>
            s.threads.map Thread.pc)) =
      some ([.returned .ok, .removeDel sampleSpec.key 3 (some warmManifest)], some true,
        some (some [.returned .ok, .returned .ok])) := by
    decide +kernel
  obtain ⟨s, hrun, hobs⟩ := Run.of_tested (fun _ _ => orderly_of_tidyStep) h
  obtain ⟨hpcs, hobs⟩ := Prod.mk.inj hobs
  obtain ⟨hreplied, hobs⟩ := Prod.mk.inj hobs
  obtain ⟨t, hi, ho⟩ := Option.map_eq_some_iff.mp hreplied
  obtain ⟨s₁, hs₁, hrest⟩ := Option.map_eq_some_iff.mp hobs
  have hleaves : ∀ a ∈ ([.run 1 .ok none, .run 1 .ok none] : List (Action Unit)),
      ∀ _ : State Unit, a.leaves sampleSpec.key := by
    intro a ha _
    refine Action.leaves_of_runs ?_
    rcases List.mem_pair.mp ha with rfl | rfl <;> trivial
  obtain ⟨s₂, hrun₂, hend⟩ := Run.of_eval hleaves hrest
  have hpc : ∀ {j : ℕ} {u : Thread Unit}, s.threads[j]? = some u →
      [Pc.returned .ok, .removeDel sampleSpec.key 3 (some warmManifest)][j]? = some u.pc := by
    intro j u hj
    rw [← hpcs, List.getElem?_map, hj]
    rfl
  have ht : t.pc = .removeDel sampleSpec.key 3 (some warmManifest) :=
    (Option.some.inj (hpc hi)).symm
  have horderly : Action.orderly s (.run 1 .ok none) := by
    intro _ key _ _ j u hj1 hj
    have hj' := hpc hj
    match j with
    | 0 =>
      rw [← Option.some.inj hj']
      exact id
    | 1 => exact absurd rfl hj1
    | j + 2 => cases hj'
  have hgone := (remove_permanent hrun).2 1 t .ok none sampleSpec.key 3 (some warmManifest) s₁ s₂
    hi ht ho horderly hs₁ hrun₂
  exact ⟨s, s₁, s₂, hrun, hs₁, hrun₂, hend, hgone⟩

/-! ## A timer callback that is refused the lock -/

/-- The timer of the entry has fired, its callback has not asked for the lock yet, and `Remove` is
about to delete the entry. -/
def removesAcrossRefresh : List (Action Unit) :=
  warmArms ++ [.tick hour, .fire () sampleSpec.key, .start () (.remove sampleSpec.key) none,
    .run 2 .ok none, .run 2 .ok none]

/-- The callback does not get the lock; everybody comes to an end. -/
def refreshRefused : List (Action Unit) :=
  [.run 1 .ok none, .run 1 .ok none, .run 2 .ok none, .run 2 .ok none]

/-- `Remove` returns without an error, nothing is started afterwards and every operation has ended,
but a timer of the key is pending, and its key is not registered. -/
theorem removed_key_keeps_timer :
    ∃ s s₁ s₂ : State Unit, ∃ t tm, Run step (fun _ a => a.upkeep ∨
        a = .start () (.remove sampleSpec.key) none) init s ∧
      s.threads[2]? = some t ∧ t.pc = .removeDel sampleSpec.key 3 (some warmManifest) ∧
      (t.under s.now .ok).replied = true ∧ step s (.run 2 .ok none) = some s₁ ∧
      Run step (fun _ a => a.runs) s₁ s₂ ∧
      s₂.threads.map Thread.pc =
        [.returned .ok, .returned (.error .replacementInProgress), .returned .ok] ∧
      (s₂.mgr ()).timers sampleSpec.key = some tm ∧ tm.pending = true ∧
      (s₂.mgr ()).specs sampleSpec.key = none := by
  have hdel : (exec step (init : State Unit) removesAcrossRefresh).map (fun s =>
      s.threads[2]?.map fun t => (t.pc, (t.under s.now .ok).replied)) =
      some (some (.removeDel sampleSpec.key 3 (some warmManifest), true)) := by
    decide +kernel
  have hend : (exec step (init : State Unit) removesAcrossRefresh).map (fun s =>
      (step s (.run 2 .ok none)).map fun s => (exec step s refreshRefused).map fun s =>
        (s.threads.map Thread.pc, ((s.mgr ()).timers sampleSpec.key).map Timer.pending,
          ((s.mgr ()).specs sampleSpec.key).isNone)) =
      some (some (some ([.returned .ok, .returned (.error .replacementInProgress), .returned .ok],
        some true, true))) := by
    decide +kernel
  have hok : ∀ a ∈ removesAcrossRefresh, ∀ _ : State Unit,
      a.upkeep ∨ a = .start () (.remove sampleSpec.key) none := by
    simp [removesAcrossRefresh, warmArms, Action.upkeep, Call.upkeep]
  have hruns : ∀ a ∈ refreshRefused, ∀ _ : State Unit, a.runs := by
    simp [refreshRefused, Action.runs]
  obtain ⟨s, hs, hthread⟩ := Option.map_eq_some_iff.mp hdel
  obtain ⟨t, hi, ht⟩ := Option.map_eq_some_iff.mp hthread
  rw [hs, Option.map_some] at hend
  obtain ⟨s₁, hs₁, hrest⟩ := Option.map_eq_some_iff.mp (Option.some.inj hend)
  obtain ⟨s₂, hrun₂, hobs⟩ := Run.of_eval hruns hrest
  obtain ⟨hpcs, hobs⟩ := Prod.mk.inj hobs
  obtain ⟨htimer, hspecs⟩ := Prod.mk.inj hobs
  obtain ⟨tm, htm, hpending⟩ := Option.map_eq_some_iff.mp htimer
  exact ⟨s, s₁, s₂, t, tm, Run.of_exec hok hs, hi, congrArg Prod.fst ht, congrArg Prod.snd ht, hs₁,
    hrun₂, hpcs, htm, hpending, Option.isNone_iff_eq_none.mp hspecs⟩

end IptvProxy.Cache
