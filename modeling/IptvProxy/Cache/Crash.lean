import IptvProxy.Cache.Leases

/-!
# After a crash

The publish script lifts the expiry of the chunks it publishes, and `expireGenerationFallback`
puts one back on a generation that has to wait for its readers. What is in between is not
protected: a generation that is deleted right after the swap, by `Remove` or by its last reader
has no expiry, so a crash before its last `DEL`, or a `DEL` that fails, leaves chunks for good
(`crash_after_swap`). `unreferenced_chunks_expire` says that nothing else does.
-/

namespace IptvProxy.Cache

open Agents GenerationStore Transition

variable {s s' : State Unit}

/-- A stored chunk that will never expire. -/
def State.Bare (s : State Unit) (x : ChunkKey) : Prop :=
  ∃ e, s.redis.chunks x = some e ∧ e.deadline = none

/-- A manifest names the chunk. -/
def State.Referenced (s : State Unit) (x : ChunkKey) : Prop :=
  ∃ m, s.redis.loadManifest x.key = some m ∧ m.generation = some x.generation ∧
    x.index < m.chunkCount

/-- The operation has yet to delete the chunk or to give it an expiry. -/
def Pc.owes (x : ChunkKey) : Pc → Prop
  | .cleanup key g n j _ _ => x.key = key ∧ x.generation = g ∧ j ≤ x.index ∧ x.index < n
  | .expire key g n j _ _ => x.key = key ∧ x.generation = g ∧ j ≤ x.index ∧ x.index < n
  | _ => False

/-- No `DEL` and no `EXPIRE` of a chunk without an expiry fails, and the process does not crash
while an operation still owes one. -/
def Action.guarded (s : State Unit) : Action Unit → Prop
  | .run i o _ => ∀ t, s.threads[i]? = some t → match t.pc with
    | .cleanup key g _ j background _ =>
      (if background then o else t.under s.now o).applied = true ∨ ¬ s.Bare ⟨key, g, j⟩
    | .expire key g _ j background _ =>
      (if background then o else t.under s.now o).applied = true ∨ ¬ s.Bare ⟨key, g, j⟩
    | _ => True
  | .restart _ => ∀ t ∈ s.threads, ∀ x, t.pc.owes x → ¬ s.Bare x
  | _ => True

/-- A run with these conditions. -/
abbrev GuardedRun (s : State Unit) : Prop :=
  Run step (fun s a => a.atomic ∧ a.refillReads s ∧ a.guarded s) init s

theorem referenced_of_shows (hs : Sound s) {x : ChunkKey} {e : Expiring Body}
    (hx : s.redis.chunks x = some e) (h : (storeView s).Shows x.key x.generation) :
    s.Referenced x := by
  obtain ⟨p, hp, hgen, -⟩ := h
  have hindex := GenerationStore.Inv.shown_index hs.store (x := x) (e := e) hx hp hgen
  obtain ⟨h, hh, hptr⟩ := Option.bind_eq_some_iff.mp hp
  obtain ⟨g, hg, rfl⟩ := Option.map_eq_some_iff.mp hptr
  exact ⟨h.manifest, Option.map_eq_some_iff.mpr ⟨h, hh, rfl⟩,
    by rw [hg]; exact congrArg some hgen, hindex⟩

theorem owes_of_role {t : Thread Unit} {x : ChunkKey}
    (h : t.pc.role.deletes x ∨ t.pc.role.expires x) : t.pc.owes x := by
  rcases h with h | h <;> cases hpc : t.pc <;> rw [hpc] at h
  case inl.cleanup | inr.expire => exact h
  all_goals exact h.elim

/-- The conditions are those of the store. -/
theorem Informed.guarded (hs : Informed s) {a : Action Unit} {l : Label} (ha : a.guarded s)
    (hl : a.Labelled s l) : (storeView s).Protected l := by
  cases l with
  | other => trivial
  | swap => exact hs.swap hl
  | clean j applied =>
    cases a with
    | run i o fetched =>
      obtain ⟨t, hi, rfl, key, g, n, k, background, next, hpc, rfl⟩ := hl
      have hguard := ha t hi
      rw [hpc] at hguard
      rcases hguard with happ | hbare
      · exact .inl happ
      · refine .inr fun l k' g' n' j' hagent => ?_
        rw [storeView_agents hi, hpc] at hagent
        injection Option.some.inj hagent with _ hrole
        injection hrole with hk hg _ hj
        rw [← hk, ← hg, ← hj]
        exact hbare
    | _ => cases hl
  | expire j applied =>
    cases a with
    | run i o fetched =>
      obtain ⟨t, hi, rfl, key, g, n, k, background, next, hpc, rfl⟩ := hl
      have hguard := ha t hi
      rw [hpc] at hguard
      rcases hguard with happ | hbare
      · exact .inl happ
      · refine .inr fun l k' g' n' j' hagent => ?_
        rw [storeView_agents hi, hpc] at hagent
        injection Option.some.inj hagent with _ hrole
        injection hrole with hk hg _ hj
        rw [← hk, ← hg, ← hj]
        exact hbare
    | _ => cases hl
  | crash =>
    cases a with
    | restart p =>
      intro x hx
      have hno : ∀ {P : Role String Body Manifest → Prop},
          (∀ r, P r → r.deletes x ∨ r.expires x) → ¬ (storeView s).HasRole P := by
        rintro P hP ⟨i, agent, hi, hrole⟩
        obtain ⟨t, ht, rfl⟩ := Option.map_eq_some_iff.mp ((List.getElem?_map ..).symm.trans hi)
        exact ha t (List.mem_of_getElem? ht) x (owes_of_role (hP _ hrole)) hx
      exact ⟨hno fun r hr => .inl hr, hno fun r hr => .inr hr⟩
    | run => exact (hl.elim fun _ h => h.2).elim
    | _ => cases hl

theorem chunkTimed_of_run (h : GuardedRun s) : ChunkTimed (storeView s) := by
  have hok : ∀ (s : State Unit) (a : Action Unit),
      (a.atomic ∧ a.refillReads s ∧ a.guarded s) → a.atomic ∧ a.refillReads s :=
    fun s a ha => ⟨ha.1, ha.2.1⟩
  induction h with
  | refl => exact fun x ⟨e, he, _⟩ => nomatch he
  | @tail s s' hrest hn ih =>
    obtain ⟨a, ha, hstep⟩ := hn
    have hinf := informed_of_run hok hrest
    rcases (Steps.of_step hstep).view ha.1 hinf.sound.shape hinf.sound.localOk with
      heq | ⟨l, hl, hlabel⟩
    · rw [heq]
      exact ih
    · exact ih.step hinf.sound.store (hinf.guarded ha.2.2 hlabel) hl

/-- **What a crash leaves behind expires**: after the restart that follows a guarded run, a chunk
that no manifest names has an expiry. -/
theorem unreferenced_chunks_expire {p : Unit} (h : GuardedRun s)
    (hguard : (Action.restart p).guarded s) (hstep : step s (.restart p) = some s') :
    ∀ x e, s'.redis.chunks x = some e → ¬ s'.Referenced x → e.deadline ≠ none := by
  intro x e he hno hd
  have hok : (Action.restart p).atomic ∧ (Action.restart p).refillReads s ∧
      (Action.restart p).guarded s := ⟨⟨trivial, by rintro _ _ _ ⟨⟩⟩, trivial, hguard⟩
  have hrun : GuardedRun s' := h.tail ⟨.restart p, hok, hstep⟩
  have hs : Sound s' := sound_of_run (hrun.mono fun s a ha => ha.1)
  have hnorole : ∀ {P : Role String Body Manifest → Prop}, ¬ P .idle →
      ¬ (storeView s').HasRole P := by
    rintro P hP ⟨i, agent, hi, hrole⟩
    obtain ⟨t, ht, rfl⟩ := Option.map_eq_some_iff.mp ((List.getElem?_map ..).symm.trans hi)
    obtain rfl := Option.some.inj hstep
    obtain ⟨v, -, rfl⟩ := stepRestart_thread ht
    exact hP hrole
  rcases chunkTimed_of_run hrun x ⟨e, he, hd⟩ with hshows | hdeletes | hexpires
  · exact hno (referenced_of_shows hs he hshows)
  · exact hnorole id hdeletes
  · exact hnorole id hexpires

/-! ## A crash in between -/

/-- `Warm` publishes twice, and the process crashes before it deletes the first generation. -/
def crashAfterSwap : List (Action Unit) :=
  [.start () (.warm sampleSpec) none, .run 0 .ok none, .run 0 .ok none, .run 0 .ok none,
    .run 0 .ok (some sampleResponse), .run 0 .ok none, .run 0 .ok none, .run 0 .ok none,
    .run 0 .ok none, .run 0 .ok none, .start () (.warm sampleSpec) none, .run 1 .ok none,
    .run 1 .ok none, .run 1 .ok none, .run 1 .ok (some sampleResponse), .run 1 .ok none,
    .run 1 .ok none, .run 1 .ok none, .restart ()]

/-- The first generation stays for good. -/
theorem crash_after_swap :
    ∃ s : State Unit, Run step (fun _ a => a.atomic ∧ a.faultless) init s ∧
      ∃ x e, s.redis.chunks x = some e ∧ ¬ s.Referenced x ∧ e.deadline = none := by
  have h : (exec step (init : State Unit) crashAfterSwap).map (fun s =>
      ((s.redis.chunks ⟨"iptv:cache:p:e", 2, 0⟩).map fun e => e.deadline,
        (s.redis.loadManifest "iptv:cache:p:e").map Manifest.generation)) =
      some (some none, some (some 4)) := by
    decide +kernel
  have hok : ∀ a ∈ crashAfterSwap, ∀ _ : State Unit, a.atomic ∧ a.faultless := by
    simp [crashAfterSwap, Action.atomic, Action.plain, Action.faultless, Call.plain]
  obtain ⟨s, hrun, hobs⟩ := Run.of_eval hok h
  obtain ⟨hchunk, hgen⟩ := Prod.mk.inj hobs
  obtain ⟨e, he, hd⟩ := Option.map_eq_some_iff.mp hchunk
  refine ⟨s, hrun, _, e, he, ?_, hd⟩
  rintro ⟨m, hm, hg, -⟩
  rw [hm, Option.map_some, hg] at hgen
  cases hgen

/-- `Warm` publishes twice, deletes the first generation, and the process crashes. -/
def crashAfterCleanup : List (Action Unit) :=
  [.start () (.warm sampleSpec) none, .run 0 .ok none, .run 0 .ok none, .run 0 .ok none,
    .run 0 .ok (some sampleResponse), .run 0 .ok none, .run 0 .ok none, .run 0 .ok none,
    .run 0 .ok none, .run 0 .ok none, .start () (.warm sampleSpec) none, .run 1 .ok none,
    .run 1 .ok none, .run 1 .ok none, .run 1 .ok (some sampleResponse), .run 1 .ok none,
    .run 1 .ok none, .run 1 .ok none, .run 1 .ok none]

/-- A loop over chunks that is in progress runs in the background. -/
def Pc.unlimited : Pc → Bool
  | .cleanup _ _ _ _ background _ => background
  | .expire _ _ _ _ background _ => background
  | _ => true

/-- The action is one of that run, and no context limits a deletion. -/
def crashStep (s : State Unit) (a : Action Unit) : Bool :=
  crashAfterCleanup.contains a && s.threads.all fun t => t.pc.unlimited

theorem guarded_of_crashStep {s : State Unit} {a : Action Unit} (h : crashStep s a = true) :
    a.atomic ∧ a.refillReads s ∧ a.guarded s := by
  have hactions : ∀ a ∈ crashAfterCleanup, a.atomic ∧ a.faultless ∧ a.steady := by
    simp [crashAfterCleanup, Action.atomic, Action.plain, Action.faultless, Action.steady,
      Call.plain]
  obtain ⟨hmem, htest⟩ := Bool.and_eq_true_iff.mp h
  obtain ⟨hatomic, hfault, hsteady⟩ := hactions a (List.contains_iff_mem.mp hmem)
  cases a with
  | run i o fetched =>
    obtain rfl : o = .ok := hfault _ _ _ rfl
    refine ⟨hatomic, fun _ _ _ _ _ _ => rfl, fun t hi => ?_⟩
    have hbackground : t.pc.unlimited = true :=
      List.all_eq_true.mp htest t (List.mem_of_getElem? hi)
    cases hpc : t.pc <;> rw [hpc] at hbackground
    case cleanup | expire =>
      obtain rfl := hbackground
      exact .inl rfl
    all_goals trivial
  | restart => exact hsteady.elim
  | _ => exact ⟨hatomic, trivial, trivial⟩

/-- Nothing but the second generation stays. -/
theorem unreferenced_chunks_expire_sample :
    ∃ s s' : State Unit, GuardedRun s ∧ step s (.restart ()) = some s' ∧
      ∀ x e, s'.redis.chunks x = some e → ¬ s'.Referenced x → e.deadline ≠ none := by
  have h : (exec (fun s a => if crashStep s a then step s a else none) (init : State Unit)
      crashAfterCleanup).map (fun s => s.threads.map Thread.pc) =
      some [.returned .ok, .schedule sampleSpec (thresholdDelay sampleSpec.ttl)
        (.unlock sampleSpec.key 3 (.returned .ok))] := by
    decide +kernel
  obtain ⟨s, hrun, hobs⟩ := Run.of_tested (fun _ _ => guarded_of_crashStep) h
  have hguard : (Action.restart ()).guarded s := by
    intro t ht x howes
    have hmem : t.pc ∈ s.threads.map Thread.pc := List.mem_map_of_mem ht
    rw [hobs] at hmem
    simp only [List.mem_cons, List.not_mem_nil, or_false] at hmem
    rcases hmem with hpc | hpc <;> rw [hpc] at howes <;> exact howes.elim
  exact ⟨s, stepRestart s (), hrun, rfl, unreferenced_chunks_expire hrun hguard rfl⟩

end IptvProxy.Cache
