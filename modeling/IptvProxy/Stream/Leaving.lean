import IptvProxy.Stream.Upstream

/-!
# Viewers that leave

A session is cancelled when its map of viewers is empty. That the map is empty does not mean that
nobody uses the session: a `Subscribe` may wait for `ready`, or be on its way from there to
`addViewer`. Nor does a later `Subscribe` ask whether the session it finds was cancelled. Both ways
another viewer's departure breaks a call (`leaving_breaks_others`). `leaving_breaks_nobody` says
that there is no third way.
-/

namespace IptvProxy.Stream

open Transition

universe u

variable {C : Type u}

/-! ## The conditions -/

/-- The stream is opened unless the context is cancelled, and it does not end before. -/
def Session.Choice.Healthy (x : Session C) : Session.Choice C → Prop
  | .opened err => err ≠ none → x.cancelled = true
  | .data _ last => last = true → x.cancelled = true
  | _ => True

/-- Every upstream is healthy. -/
def Healthy (s : State C) : Action C → Prop
  | .pump n ch => ∀ x, s.sessions[n]? = some x → ch.Healthy x
  | _ => True

/-- The caller is on its way from the lookup of session `n` to its return. -/
def Pc.joins (n : ℕ) (x : Session C) : Pc → Prop
  | .waitReady _ m | .checkOpenErr _ m | .checkDone _ m | .addViewer m => m = n
  | .closeStart m v => m = n ∧ v ∈ x.members
  | _ => False

/-- Nobody is on the way to session `n`. -/
def State.Unused (s : State C) (n : ℕ) (x : Session C) : Prop :=
  ∀ pc ∈ s.threads, ¬ pc.joins n x

/-- A session is cancelled for lack of viewers only when nobody is on the way to it, and a lookup
finds no cancelled session, or one that is done and that was opened. -/
def Undisturbed (s : State C) : Action C → Prop
  | .run i _ => ∀ pc, s.threads[i]? = some pc → match pc with
    | .cancel n => ∀ x, s.sessions[n]? = some x → x.cancelled = true ∨ s.Unused n x
    | .lookup key => ∀ n x, s.registry key = some n → s.sessions[n]? = some x →
      x.cancelled = false ∨ (x.done = true ∧ x.openErr = none)
    | _ => True
  | .pump n .go => ∀ x last, s.sessions[n]? = some x → x.pump = .cancelEmpty last →
      x.cancelled = true ∨ s.Unused n x
  | _ => True

/-! ## The invariant -/

/-- What a caller on the way to session `x` can rely on. -/
def Pc.Served (x : Session C) : Pc → Prop
  | .waitReady _ _ | .checkOpenErr _ _ | .checkDone _ _ =>
    x.cancelled = false ∨ (x.done = true ∧ x.openErr = none)
  | .addViewer _ => x.cancelled = false
  | .closeStart _ v => v ∈ x.members → x.cancelled = false
  | _ => True

/-- Only a cancelled session goes wrong. -/
def Session.Sane (x : Session C) : Prop :=
  (x.openErr ≠ none → x.cancelled = true) ∧ (x.done = true → x.cancelled = true) ∧
    match x.pump with
    | .opening => x.done = false
    | .closeReady false => x.openErr ≠ none
    | .look _ last | .sendOnly _ _ last | .lockAll _ last | .sendAll _ _ last | .cancelEmpty last
    | .endOfRead last => last = true → x.cancelled = true
    | .finish | .sweep | .closeDone | .unregister | .ended => x.cancelled = true
    | _ => True

/-- The invariant. -/
structure State.Welcoming (s : State C) : Prop where
  /-- each session -/
  sane : ∀ (n : ℕ) x, s.sessions[n]? = some x → x.Sane
  /-- each caller -/
  served : ∀ pc ∈ s.threads, ∀ n x, pc.session = some n → s.sessions[n]? = some x → pc.Served x
  /-- no caller gets somebody else's error -/
  kept : ∀ pc ∈ s.threads, ∀ err, pc ≠ .refused (some err)

namespace Pc

variable {x y : Session C} {pc : Pc} {n : ℕ}

theorem served_of_live (h : x.cancelled = false) : pc.Served x := by
  cases pc with
  | waitReady | checkOpenErr | checkDone => exact .inl h
  | addViewer => exact h
  | closeStart => exact fun _ => h
  | _ => trivial

theorem served_of_not_joins (hn : pc.session = some n) (h : ¬ pc.joins n x) : pc.Served x := by
  cases pc with
  | waitReady | checkOpenErr | checkDone | addViewer => exact absurd (Option.some.inj hn) h
  | closeStart m v => exact fun hv => absurd ⟨Option.some.inj hn, hv⟩ h
  | _ => trivial

/-- What a caller relies on is kept while nobody cancels the session. -/
theorem Served.mono (h : pc.Served x) (hlive : x.cancelled = false → y.cancelled = false)
    (hdone : x.done = true → x.openErr = none → y.done = true ∧ y.openErr = none)
    (hmembers : ∀ v ∈ y.members, v ∈ x.members ∨ x.cancelled = false) : pc.Served y := by
  cases pc with
  | waitReady | checkOpenErr | checkDone =>
    rcases h with hc | ⟨hd, he⟩
    · exact .inl (hlive hc)
    · exact .inr (hdone hd he)
  | addViewer => exact hlive h
  | closeStart m v =>
    intro hv
    rcases hmembers v hv with hv | hc
    · exact hlive (h hv)
    · exact hlive hc
  | _ => trivial

end Pc

namespace Session

variable {x y : Session C}

theorem Sane.fresh (key : String) : (Session.fresh key : Session C).Sane :=
  ⟨fun h => absurd rfl h, fun h => (by cases h), rfl⟩

theorem Sane.cancel (h : x.Sane) : x.cancel.Sane := by
  refine ⟨fun _ => rfl, fun _ => rfl, ?_⟩
  have hp := h.2.2
  rw [show x.cancel.pump = x.pump from rfl]
  split at hp
  · exact hp
  · exact hp
  all_goals first
    | exact fun _ => rfl
    | rfl
    | trivial

/-- A caller leaves the goroutine where it is. -/
theorem Sane.of_caller (h : x.Sane) (hpump : y.pump = x.pump) (hdone : y.done = x.done)
    (herr : y.openErr = x.openErr) (hcancelled : y.cancelled = x.cancelled) : y.Sane := by
  rw [Sane, hpump, hdone, herr, hcancelled]
  exact h

theorem mem_members_modify {v u : ℕ} {f : Viewer C → Viewer C}
    (hf : ∀ w, (f w).member = true → w.member = true) (h : u ∈ (x.modify v f).members) :
    u ∈ x.members := by
  obtain ⟨w, hw, hm⟩ := mem_members.mp h
  obtain ⟨w₀, hw₀, ⟨rfl, rfl⟩ | ⟨-, rfl⟩⟩ := modify_cases hw
  · exact mem_members.mpr ⟨w₀, hw₀, hf w₀ hm⟩
  · exact mem_members.mpr ⟨w, hw₀, hm⟩

theorem mem_members_looked {v : ℕ} : v ∈ x.looked.members ↔ v ∈ x.members := by
  rw [mem_members, mem_members]
  constructor
  · rintro ⟨w, hw, hm⟩
    obtain ⟨w₀, hw₀, rfl⟩ := looked_cases hw
    exact ⟨w₀, hw₀, hm⟩
  · rintro ⟨w, hw, hm⟩
    exact ⟨_, looked_of_some hw, hm⟩

theorem offer_member {c : C} (w : Viewer C) (h : (offer c w).member = true) : w.member = true := by
  rw [offer] at h
  split at h
  · exact h
  · cases h

/-- A healthy step of the goroutine keeps a session sane. -/
theorem Sane.step (h : x.Sane) {ch : Choice C} (hch : ch.Healthy x) (hs : x.step ch = some y) :
    y.Sane := by
  obtain ⟨herr, hdone, hp⟩ := h
  unfold Session.step at hs
  split at hs <;> split at hs <;> try split at hs
  all_goals cases hs
  all_goals simp only [*] at hp
  all_goals first
    | exact ⟨herr, hdone, hp⟩
    | exact ⟨herr, hdone, trivial⟩
    | exact ⟨herr, hdone, hch⟩
    | exact ⟨fun _ => rfl, fun _ => rfl, rfl⟩
    | exact ⟨fun _ => rfl, fun _ => rfl, fun _ => rfl⟩
    | skip
  -- `open` returns
  · next err _ _ =>
    refine ⟨hch, hdone, ?_⟩
    cases err with
    | none => trivial
    | some e => exact Option.some_ne_none e
  -- it was an error
  · exact ⟨herr, hdone, herr hp⟩
  -- the end of the loop
  · next last _ hend =>
    refine ⟨herr, hdone, ?_⟩
    rcases (Bool.or_eq_true ..).mp hend with hlast | hc
    · exact hp hlast
    · exact hc
  -- `close(s.done)`
  · exact ⟨herr, fun _ => hp, hp⟩
  -- the branches `<-s.ctx.Done()`
  · next hc _ _ => exact ⟨herr, hdone, Bool.of_not_eq_false hc⟩
  · next hc _ _ _ _ _ => exact ⟨herr, hdone, fun _ => Bool.of_not_eq_false hc⟩
  -- the sweep stays where it is
  · next hsweep _ =>
    refine ⟨herr, hdone, ?_⟩
    rw [modify]
    dsimp only
    rw [hsweep]
    exact hp

/-- What a step of the goroutine leaves alone. -/
theorem step_keeps (h : x.Sane) {ch : Choice C} (hs : x.step ch = some y) :
    (x.cancelled = false → y.cancelled = false ∨
      ch = .go ∧ ∃ last, x.pump = .cancelEmpty last) ∧
    (x.done = true → x.openErr = none → y.done = true ∧ y.openErr = none) ∧
    ∀ v ∈ y.members, v ∈ x.members := by
  obtain ⟨herr, hdone, hp⟩ := h
  unfold Session.step at hs
  split at hs <;> split at hs <;> try split at hs
  all_goals cases hs
  all_goals simp only [*] at hp
  all_goals refine ⟨?_, ?_, ?_⟩
  all_goals first
    | exact fun hc => .inl hc
    | exact fun hd he => ⟨hd, he⟩
    | exact fun v hv => hv
    | skip
  -- `open` returns: the session is not done
  · intro hd
    rw [hp] at hd
    cases hd
  -- the broadcast looks at the map
  · next c _ _ _ _ _ =>
    exact fun v hv => (mem_members_looked (x := { x with broadcasts := x.broadcasts ++ [c] })).mp hv
  · exact fun v hv => mem_members_looked.mp hv
  -- the context is cancelled for lack of viewers
  · next last hcancel => exact fun _ => .inr ⟨rfl, last, hcancel⟩
  -- it was cancelled before
  · intro hc
    rw [hp] at hc
    cases hc
  · exact fun _ he => ⟨rfl, he⟩
  -- a viewer is served or dropped
  · intro v hv
    exact mem_members_modify (x := x) (f := Viewer.enqueue _) (fun _ hw => hw) hv
  · intro v hv
    exact mem_members_modify (x := x) offer_member hv
  · intro v hv
    exact mem_members_modify (x := x) (fun _ hw => by cases hw) hv

end Session

/-! ## Steps -/

/-- `Next` takes a chunk or goes on. -/
theorem stepWith_next {s t : State C} {i n v : ℕ} {x : Session C} {pc : Pc} {b : Branch}
    (hpc : pc = .next n v ∨ pc = .nextWait n v ∨ pc = .nextClosed n v)
    (h : stepWith s i n x pc b = some t) :
    ∃ pc', (pc' = .returned ∨ pc' = .nextWait n v ∨ pc' = .nextClosed n v) ∧
      (t = s.goto i pc' ∨ t = (s.update n (x.modify v .take)).goto i pc' ∨
        t = (s.update n (x.modify v .returnEOF)).goto i pc') := by
  rcases hpc with rfl | rfl | rfl
  · cases b <;> simp only [stepWith] at h
    case go =>
      obtain ⟨w, -, rfl⟩ := Option.map_eq_some_iff.mp h
      split
      · exact ⟨_, .inr (.inl rfl), .inl rfl⟩
      · exact ⟨_, .inl rfl, .inr (.inl rfl)⟩
    all_goals cases h
  · cases b <;> simp only [stepWith] at h
    case ctxDone =>
      cases h
      exact ⟨_, .inl rfl, .inl rfl⟩
    all_goals
      obtain ⟨w, -, h⟩ := Option.bind_eq_some_iff.mp h
      split at h <;> cases h
    · exact ⟨_, .inl rfl, .inr (.inl rfl)⟩
    · exact ⟨_, .inr (.inr rfl), .inl rfl⟩
  · cases b <;> simp only [stepWith] at h
    case go =>
      obtain ⟨w, -, rfl⟩ := Option.map_eq_some_iff.mp h
      split
      · exact ⟨_, .inl rfl, .inr (.inr rfl)⟩
      · exact ⟨_, .inl rfl, .inr (.inl rfl)⟩
    all_goals cases h

namespace State.Welcoming

variable {s t : State C} {i n : ℕ} {x y : Session C} {pc : Pc}

theorem goto (h : s.Welcoming)
    (hself : ∀ n x, pc.session = some n → s.sessions[n]? = some x → pc.Served x)
    (herr : ∀ err, pc ≠ .refused (some err)) : (s.goto i pc).Welcoming where
  sane := h.sane
  served := Agents.forall_mem_set h.served hself
  kept := Agents.forall_mem_set h.kept herr

theorem call (h : s.Welcoming)
    (hself : ∀ n x, pc.session = some n → s.sessions[n]? = some x → pc.Served x)
    (herr : ∀ err, pc ≠ .refused (some err)) : (s.call pc).Welcoming where
  sane := h.sane
  served := Agents.forall_mem_append h.served hself
  kept := Agents.forall_mem_append h.kept herr

/-- A session changes, and its callers keep what they rely on. -/
theorem update (h : s.Welcoming) (hn : s.sessions[n]? = some x) (hsane : y.Sane)
    (hserved : ∀ pc ∈ s.threads, pc.session = some n → pc.Served x → pc.Served y) :
    (s.update n y).Welcoming where
  sane := by
    intro m z hz
    rcases Agents.getElem?_set_cases hz with ⟨-, rfl⟩ | ⟨-, hz⟩
    · exact hsane
    · exact h.sane m z hz
  served := by
    intro pc hpc m z hm hz
    rcases Agents.getElem?_set_cases hz with ⟨rfl, rfl⟩ | ⟨-, hz⟩
    · exact hserved pc hpc hm (h.served pc hpc m x hm hn)
    · exact h.served pc hpc m z hm hz
  kept := h.kept

/-- A caller changes a session without cancelling it. -/
theorem caller (h : s.Welcoming) (hn : s.sessions[n]? = some x) (hpump : y.pump = x.pump)
    (hdone : y.done = x.done) (herr : y.openErr = x.openErr) (hc : y.cancelled = x.cancelled)
    (hmembers : ∀ v ∈ y.members, v ∈ x.members ∨ x.cancelled = false) :
    (s.update n y).Welcoming := by
  refine h.update hn ((h.sane n x hn).of_caller hpump hdone herr hc) fun pc _ _ hserved => ?_
  exact hserved.mono (fun hlive => hc.trans hlive)
    (fun hd he => ⟨hdone.trans hd, herr.trans he⟩) hmembers

/-- A session is cancelled that was cancelled before, or that nobody is on the way to. -/
theorem cancel (h : s.Welcoming) (hn : s.sessions[n]? = some x)
    (hunused : x.cancelled = true ∨ s.Unused n x) : (s.update n x.cancel).Welcoming := by
  refine h.update hn (h.sane n x hn).cancel fun pc hpc hm hserved => ?_
  rcases hunused with hc | hunused
  · have hsame : x.cancel = x := by
      rw [Session.cancel, ← hc]
    rwa [hsame]
  · exact Pc.served_of_not_joins hm fun hj => hunused pc hpc hj

/-- The step of a caller that works with a session. -/
theorem stepWith {b : Branch} (h : s.Welcoming) (hi : s.threads[i]? = some pc)
    (hpc : pc.session = some n) (hn : s.sessions[n]? = some x)
    (hcancel : ∀ m, pc = .cancel m → x.cancelled = true ∨ s.Unused n x)
    (ht : stepWith s i n x pc b = some t) : t.Welcoming := by
  have hserved : pc.Served x := h.served pc (List.mem_of_getElem? hi) n x hpc hn
  have hsane : x.Sane := h.sane n x hn
  have hthe : ∀ {z : Session C}, s.sessions[n]? = some z → z = x := fun hz =>
    Option.some.inj (hz.symm.trans hn)
  cases pc with
  | waitReady key m =>
    obtain rfl := Option.some.inj hpc
    cases b <;> simp only [Stream.stepWith] at ht
    case go =>
      split at ht <;> cases ht
      refine h.goto ?_ fun _ hr => by cases hr
      rintro _ z ⟨⟩ hz
      rw [hthe hz]
      exact hserved
    case ctxDone =>
      cases ht
      exact h.goto (fun _ _ _ _ => trivial) fun _ hr => by cases hr
    case closed => cases ht
  | cancelIfEmpty m =>
    cases b <;> simp only [Stream.stepWith] at ht
    case go =>
      split at ht <;> cases ht
      split
      · exact h.goto (fun _ _ _ _ => trivial) fun _ hr => by cases hr
      · exact h.goto (fun _ _ _ _ => trivial) fun _ hr => by cases hr
    all_goals cases ht
  | cancel m =>
    cases b <;> cases ht
    exact (h.cancel hn (hcancel m rfl)).goto (fun _ _ _ _ => trivial) fun _ hr => by cases hr
  | checkOpenErr key m =>
    obtain rfl := Option.some.inj hpc
    cases b <;> cases ht
    rcases herr : x.openErr with _ | err
    · refine h.goto ?_ fun _ hr => by cases hr
      rintro _ z ⟨⟩ hz
      rw [hthe hz]
      exact hserved
    · -- a session that failed was cancelled, and nobody is on the way to it
      have hc : x.cancelled = true := hsane.1 (by rw [herr]; exact Option.some_ne_none err)
      rcases hserved with hlive | ⟨-, hnone⟩
      · rw [hc] at hlive
        cases hlive
      · rw [herr] at hnone
        cases hnone
  | checkDone key m =>
    obtain rfl := Option.some.inj hpc
    cases b <;> cases ht
    split
    · exact h.goto (fun _ _ _ _ => trivial) fun _ hr => by cases hr
    · next hdone =>
      refine h.goto ?_ fun _ hr => by cases hr
      rintro _ z ⟨⟩ hz
      rw [hthe hz]
      rcases hserved with hlive | ⟨hd, -⟩
      · exact hlive
      · exact absurd hd hdone
  | addViewer m =>
    obtain rfl := Option.some.inj hpc
    cases b <;> simp only [Stream.stepWith] at ht
    case go =>
      split at ht <;> cases ht
      -- the new viewer joins a session that is not cancelled
      have hinsert := h.caller (y := x.insert) hn rfl rfl rfl rfl fun _ _ => .inr hserved
      refine hinsert.goto ?_ fun _ hr => by cases hr
      rintro _ z ⟨⟩ hz
      rw [State.update, Agents.getElem?_set_of_some hn] at hz
      obtain rfl := Option.some.inj hz
      exact fun _ => hserved
    all_goals cases ht
  | closeStart m v =>
    cases b <;> cases ht
    exact (h.caller (y := x.closeStart) hn rfl rfl rfl rfl fun _ hv => .inl hv).goto
      (fun _ _ _ _ => trivial) fun _ hr => by cases hr
  | remove m v =>
    cases b <;> simp only [Stream.stepWith] at ht
    case go =>
      split at ht <;> cases ht
      have hremove := h.caller (y := x.remove v) hn rfl rfl rfl rfl fun u hu => by
        refine .inl (Session.mem_members_modify (fun w hw => ?_) hu)
        split at hw
        · cases hw
        · exact hw
      split
      · exact hremove.goto (fun _ _ _ _ => trivial) fun _ hr => by cases hr
      · exact hremove.goto (fun _ _ _ _ => trivial) fun _ hr => by cases hr
    all_goals cases ht
  | next m v | nextWait m v | nextClosed m v =>
    obtain rfl := Option.some.inj hpc
    -- reading from the queue changes no membership
    have htake : (s.update m (x.modify v Viewer.take)).Welcoming := by
      refine h.caller hn rfl rfl rfl rfl fun u hu => .inl ?_
      exact Session.mem_members_modify (f := Viewer.take) (fun _ hw => hw) hu
    have heof : (s.update m (x.modify v Viewer.returnEOF)).Welcoming := by
      refine h.caller hn rfl rfl rfl rfl fun u hu => .inl ?_
      exact Session.mem_members_modify (f := Viewer.returnEOF) (fun _ hw => hw) hu
    obtain ⟨pc', hpc', ht⟩ := stepWith_next (v := v) (by simp) ht
    have hserved : ∀ n x, pc'.session = some n → s.sessions[n]? = some x → pc'.Served x := by
      rcases hpc' with rfl | rfl | rfl <;> exact fun _ _ _ _ => trivial
    have hserved' : ∀ (y : Session C) n z, pc'.session = some n →
        (s.update m y).sessions[n]? = some z → pc'.Served z := by
      rcases hpc' with rfl | rfl | rfl <;> exact fun _ _ _ _ _ => trivial
    have hkept : ∀ err, pc' ≠ .refused (some err) := by
      rcases hpc' with rfl | rfl | rfl <;> exact fun _ hr => by cases hr
    rcases ht with rfl | rfl | rfl
    · exact h.goto hserved hkept
    · exact htake.goto (hserved' _) hkept
    · exact heof.goto (hserved' _) hkept
  | _ => cases hpc

theorem create (h : s.Welcoming) (key : String) : (s.create key).Welcoming where
  sane := by
    intro m z hz
    rcases Agents.getElem?_append_cases hz with hz | rfl
    · exact h.sane m z hz
    · exact Session.Sane.fresh key
  served := by
    intro pc hpc m z hm hz
    rcases Agents.getElem?_append_cases hz with hz | rfl
    · exact h.served pc hpc m z hm hz
    · exact Pc.served_of_live rfl
  kept := h.kept

/-- **Every step keeps the invariant.** -/
theorem step {a : Action C} (h : s.Welcoming) (hhealthy : Healthy s a) (ha : Undisturbed s a)
    (ht : step s a = some t) : t.Welcoming := by
  cases a with
  | run i b =>
    obtain ⟨pc, hi, hs⟩ := Option.bind_eq_some_iff.mp ht
    have hok := ha pc hi
    unfold stepThread at hs
    split at hs
    · next key =>
      obtain rfl := Option.some.inj hs
      split
      · next n hkey =>
        refine h.goto ?_ fun _ hr => by cases hr
        rintro _ x ⟨⟩ hx
        exact hok n x hkey hx
      · refine (h.create key).goto ?_ fun _ hr => by cases hr
        rintro _ x ⟨⟩ hx
        rw [State.create, List.getElem?_concat_length] at hx
        obtain rfl := Option.some.inj hx
        exact .inl rfl
    · obtain ⟨n, hn, hs⟩ := Option.bind_eq_some_iff.mp hs
      obtain ⟨x, hx, hs⟩ := Option.bind_eq_some_iff.mp hs
      refine h.stepWith hi hn hx ?_ hs
      rintro m rfl
      obtain rfl := Option.some.inj hn
      exact hok x hx
  | pump n ch =>
    obtain ⟨x, hx, hs⟩ := Option.bind_eq_some_iff.mp ht
    have hsane := h.sane n x hx
    unfold stepPump at hs
    split at hs
    · next hp =>
      obtain rfl := Option.some.inj hs
      have hc : x.cancelled = true := by
        have hpump := hsane.2.2
        rwa [hp] at hpump
      have hended : (s.update n (x.goto .ended)).Welcoming := by
        refine h.update hx ⟨hsane.1, hsane.2.1, hc⟩ fun pc _ _ hserved => ?_
        exact hserved.mono id (fun hd he => ⟨hd, he⟩) fun v hv => .inl hv
      exact ⟨hended.sane, hended.served, hended.kept⟩
    · next ch _ _ _ =>
      obtain ⟨y, hy, rfl⟩ := Option.map_eq_some_iff.mp hs
      obtain ⟨hlive, hdone, hmembers⟩ := Session.step_keeps hsane hy
      refine h.update hx (hsane.step (hhealthy x hx) hy) fun pc hpc hn hserved => ?_
      by_cases hcancel : ch = .go ∧ ∃ last, x.pump = .cancelEmpty last
      · obtain ⟨rfl, last, hp⟩ := hcancel
        rcases ha x last hx hp with hc | hunused
        · refine hserved.mono (fun hlive => ?_) hdone fun v hv => .inl (hmembers v hv)
          rw [hc] at hlive
          cases hlive
        · refine Pc.served_of_not_joins hn fun hj => hunused pc hpc ?_
          cases pc with
          | closeStart m v => exact ⟨hj.1, hmembers v hj.2⟩
          | _ => exact hj
      · refine hserved.mono (fun hc => ?_) hdone fun v hv => .inl (hmembers v hv)
        rcases hlive hc with hy | hbad
        · exact hy
        · exact absurd hbad hcancel
  | _ =>
    obtain rfl := Option.some.inj ht
    exact h.call (fun _ _ _ _ => trivial) fun _ hr => by cases hr

end State.Welcoming

/-! ## The result -/

theorem welcoming_of_run {s : State C}
    (h : Run step (fun s a => Healthy s a ∧ Undisturbed s a) init s) : s.Welcoming := by
  refine h.invariant (I := State.Welcoming) (fun s a t hs ha ht => hs.step ha.1 ha.2 ht) ?_
  constructor
  · rintro _ _ ⟨⟩
  · rintro _ ⟨⟩
  · rintro _ ⟨⟩

/-- **One viewer leaving never breaks another.** In a run with healthy upstreams in which sessions
are cancelled for lack of viewers only when nobody is on the way to them, and in which no lookup
finds such a session before it is done, no caller gets an error that is not its own, and no viewer
is attached to a session that is cancelled. -/
theorem leaving_breaks_nobody {s : State C}
    (h : Run step (fun s a => Healthy s a ∧ Undisturbed s a) init s) :
    (∀ pc ∈ s.threads, ∀ err, pc ≠ .refused (some err)) ∧
    (∀ (n : ℕ) x, Pc.addViewer n ∈ s.threads → s.sessions[n]? = some x → x.cancelled = false) ∧
    ∀ (n v : ℕ) x, Pc.closeStart n v ∈ s.threads → s.sessions[n]? = some x → v ∈ x.members →
      x.cancelled = false := by
  have hs := welcoming_of_run h
  exact ⟨hs.kept, fun n x hpc hx => hs.served _ hpc n x rfl hx,
    fun n v x hpc hx => hs.served _ hpc n x rfl hx⟩

/-- The action is healthy, by a test. -/
def healthy (s : State C) : Action C → Bool
  | .pump n (.opened err) => s.sessions[n]?.all fun x => err.isNone || x.cancelled
  | .pump n (.data _ last) => s.sessions[n]?.all fun x => !last || x.cancelled
  | _ => true

theorem healthy_sound (s : State C) (a : Action C) (h : healthy s a = true) : Healthy s a := by
  cases a with
  | pump n ch =>
    intro x hx
    cases ch with
    | opened err =>
      intro herr
      simpa [healthy, hx, herr] using h
    | data c last =>
      intro hlast
      simpa [healthy, hx, hlast] using h
    | _ => trivial
  | _ => trivial

/-- No session is cancelled or about to be. -/
def calm (s : State C) (a : Action C) : Bool :=
  healthy s a && s.sessions.all (fun x => !x.cancelled && match x.pump with
    | .cancelEmpty _ => false
    | _ => true) && s.threads.all fun pc => match pc with
    | .cancel _ => false
    | _ => true

theorem calm_sound (s : State C) (a : Action C) (h : calm s a = true) :
    Healthy s a ∧ Undisturbed s a := by
  obtain ⟨h, hthreads⟩ := Bool.and_eq_true_iff.mp h
  obtain ⟨hhealthy, hsessions⟩ := Bool.and_eq_true_iff.mp h
  refine ⟨healthy_sound s a hhealthy, ?_⟩
  have hlive : ∀ (n : ℕ) x, s.sessions[n]? = some x → x.cancelled = false ∧
      ∀ last, x.pump ≠ .cancelEmpty last := by
    intro n x hx
    have hx := List.all_eq_true.mp hsessions x (List.mem_of_getElem? hx)
    obtain ⟨hc, hp⟩ := Bool.and_eq_true_iff.mp hx
    refine ⟨by simpa using hc, ?_⟩
    rintro last hpump
    rw [hpump] at hp
    cases hp
  cases a with
  | run i b =>
    intro pc hi
    have hpc := List.all_eq_true.mp hthreads pc (List.mem_of_getElem? hi)
    cases pc with
    | cancel n => cases hpc
    | lookup key => exact fun n x _ hx => .inl (hlive n x hx).1
    | _ => trivial
  | pump n ch =>
    cases ch with
    | go => exact fun x last hx hp => absurd hp ((hlive n x hx).2 last)
    | _ => trivial
  | _ => trivial

/-- Two viewers, and one of them leaves. -/
def oneOfTwoLeaves : List (Action Unit) :=
  [.subscribe "k", .run 0 .go, .subscribe "k", .run 1 .go, .pump 0 (.opened none), .pump 0 .go,
    .run 0 .go, .run 0 .go, .run 0 .go, .run 0 .go, .run 1 .go, .run 1 .go, .run 1 .go,
    .run 1 .go, .run 0 .go, .remove 0 0, .run 2 .go]

/-- The other one is about to get its viewer. -/
theorem leaving_breaks_nobody_sample :
    ∃ s x, Run step (fun s a => Healthy s a ∧ Undisturbed s a) (init : State Unit) s ∧
      s.threads = [.subscribed 0 0, .closeStart 0 1, .returned] ∧ s.sessions[0]? = some x ∧
      x.members = [1] ∧ x.cancelled = false := by
  have h : (exec (fun s a => if calm s a then step s a else none) (init : State Unit)
      oneOfTwoLeaves).map (fun s => (s.threads, s.sessions[0]?.map Session.members)) =
      some ([.subscribed 0 0, .closeStart 0 1, .returned], some [1]) := by
    decide +kernel
  obtain ⟨s, hrun, hobs⟩ := Run.of_tested calm_sound h
  obtain ⟨hthreads, hsession⟩ := Prod.mk.inj hobs
  obtain ⟨x, hx, hmembers⟩ := Option.map_eq_some_iff.mp hsession
  refine ⟨s, x, hrun, hthreads, hx, hmembers, ?_⟩
  refine (leaving_breaks_nobody hrun).2.2 0 1 x ?_ hx ?_
  · rw [hthreads]
    decide
  · rw [hmembers]
    decide

/-! ## The two windows -/

/-- The first of two callers gives up while both wait for the stream. -/
def leavesWaiting : List (Action Unit) :=
  [.subscribe "k", .run 0 .go, .subscribe "k", .run 1 .go, .run 0 .ctxDone, .run 0 .go, .run 0 .go,
    .pump 0 (.opened (some "context canceled")), .pump 0 .go, .run 1 .go, .run 1 .go]

/-- The only viewer leaves, and a second caller finds the cancelled session. -/
def leavesJoining : List (Action Unit) :=
  [.subscribe "k", .run 0 .go, .pump 0 (.opened none), .pump 0 .go, .run 0 .go, .run 0 .go,
    .run 0 .go, .run 0 .go, .run 0 .go, .remove 0 0, .run 1 .go, .run 1 .go,
    .subscribe "k", .run 2 .go, .run 2 .go, .run 2 .go, .run 2 .go]

/-- The second caller gets the cancellation of the first as its own error; or it gets a viewer of
a session that is cancelled. -/
theorem leaving_breaks_others :
    (∃ s, Run step Healthy (init : State Unit) s ∧
      s.threads = [.refused none, .refused (some "context canceled")]) ∧
    ∃ s x, Run step Healthy (init : State Unit) s ∧ Pc.addViewer 0 ∈ s.threads ∧
      s.sessions[0]? = some x ∧ x.cancelled = true := by
  have hwaiting : (exec (fun s a => if healthy s a then step s a else none) (init : State Unit)
      leavesWaiting).map State.threads =
      some [.refused none, .refused (some "context canceled")] := by
    decide +kernel
  have hjoining : (exec (fun s a => if healthy s a then step s a else none) (init : State Unit)
      leavesJoining).map (fun s => (s.threads, s.sessions[0]?.map Session.cancelled)) =
      some ([.subscribed 0 0, .refused none, .addViewer 0], some true) := by
    decide +kernel
  obtain ⟨s, hrun, hthreads⟩ := Run.of_tested healthy_sound hwaiting
  obtain ⟨s', hrun', hobs⟩ := Run.of_tested healthy_sound hjoining
  obtain ⟨hthreads', hsession⟩ := Prod.mk.inj hobs
  obtain ⟨x, hx, hc⟩ := Option.map_eq_some_iff.mp hsession
  exact ⟨⟨s, hrun, hthreads⟩, s', x, hrun', by rw [hthreads']; decide, hx, hc⟩

end IptvProxy.Stream
