import IptvProxy.Vpn.Polls
import IptvProxy.Vpn.Refused

/-!
# After a crash of the process

The stored settings outlive the process, its lock and its requests do not. `reconcileRuntimeState`
corrects a stored `connected` without a tunnel, but not a stored `connecting`: a process that ends
while a connect operation is on its way leaves a state in which every later connect is refused, and
no poll repairs it (`dead_connect_blocks`).

An operation that cannot store its outcome and then releases the lock leaves the same state. If
neither happens, nobody without the lock has stored `connecting`, and a connect operation that finds
the lock free and no tunnel up is not refused because of another connection (`connect_not_blocked`).
-/

namespace IptvProxy.Vpn.Restart

open Agents Effect Transition

/-! ## Runs with crashes -/

/-- What happens next. -/
inductive Action where
  /-- a step of the requests or the tunnels -/
  | live (a : Vpn.Action)
  /-- the process ends, at whatever command its requests are, and another one starts; the tunnels
  and the bypass table are as the crash and the entry point of the container leave them -/
  | crash (level : Tunnel → Level) (bypass : List String)

/-- The new process has no requests, and its lock is free. -/
def restart (s : State) (level : Tunnel → Level) (bypass : List String) : System :=
  ⟨{ s with level, bypass, holder := none, queue := [] }, []⟩

/-- The step function. -/
def step (s : System) : Action → Option System
  | .live a => Vpn.step s a
  | .crash level bypass => some (restart s.shared level bypass)

/-- The first start, with the settings of the migration. -/
def initial : System := ⟨.idle initialSettings [], []⟩

/-- Neither a crash nor a release of the lock comes while `connecting` is stored. -/
def Completed (s : System) : Action → Prop
  | .live (.run i _) => ∀ t k, s.threads[i]? = some t → t.program = .call .leave k →
    s.shared.settings.vpnStatus ≠ .connecting
  | .live _ => True
  | .crash _ _ => s.shared.settings.vpnStatus ≠ .connecting

/-- The operation ends with a conflict. -/
def Conflicts : Except Failure Result → Prop
  | .ok (some e) => e.conflict = true
  | .ok none => False
  | .error e => e.conflict = true

/-- No operation has the lock, and no tunnel is up. -/
structure Free (s : State) : Prop where
  /-- the lock -/
  holder : s.holder = none
  /-- the tunnels -/
  down : ∀ t, s.level t ≠ .up

/-- No connect operation is refused because of another connection. -/
def Open (s : System) : Prop :=
  ∀ (r : Request) rounds x s', r.target ≠ none →
    Runs (effect s.threads.length) (r.program rounds) s.shared x s' → ¬Conflicts x

/-! ## Who stores `connecting` -/

/-- The phase is whether a request has the lock. Without it a request neither releases it nor stores
`connecting`. -/
def keeping : Protocol Cmd Cmd.Answer Bool where
  allowed
    | held, .leave => held = true
    | held, .updateVpnState patch => held = true ∨ ∀ s, (patch s).vpnStatus ≠ .connecting
    | _, _ => True
  next
    | _, .wait, _ => some true
    | _, .leave, _ => some false
    | held, _, _ => some held

/-- The request goes on from there. -/
def Keeps (m : Op Result) (held : Bool) : Prop :=
  Follows keeping m held (fun _ _ => True) (fun _ _ => True)

/-- An operation has the lock. -/
def held : Progress → Bool
  | .inside _ => true
  | _ => false

/-- What keeps to the progress of an operation stores under the lock only. -/
theorem keeps_of_progress {r : Request} {m : Op Result} {p : Progress}
    {Q : Result → Progress → Prop} {R : Failure → Progress → Prop}
    (h : Follows (progress r) m p Q R) : Keeps m (held p) := by
  induction m generalizing p with
  | pure a => trivial
  | throw e => trivial
  | call c k ih =>
    obtain ⟨hallowed, hrest⟩ := h
    cases c with
    | leave =>
      obtain ⟨g, rfl⟩ := hallowed
      refine ⟨rfl, ?_⟩
      rintro x _ ⟨⟩
      exact ih x (hrest x _ rfl)
    | wait =>
      refine ⟨trivial, ?_⟩
      rintro x _ ⟨⟩
      exact ih x (hrest x _ rfl)
    | updateVpnState patch =>
      obtain ⟨g, rfl, -⟩ := hallowed
      refine ⟨.inl rfl, ?_⟩
      rintro (message | done) _ ⟨⟩
      · exact ih _ (hrest (.error message) _ rfl)
      · have hdone := ih _ (hrest (.ok done) (.inside (g.next patch)) rfl)
        exact hdone
    | _ =>
      refine ⟨trivial, ?_⟩
      rintro x _ ⟨⟩
      exact ih x (hrest x _ rfl)

/-! ### The requests without the lock -/

/-- A program that does not take the lock. -/
def Mild {α : Type} (m : Op α) : Prop := Within keeping (fun held => held = false) m

section Mild

variable {α β : Type} {m : Op α} {rounds : ℕ}

theorem Mild.bind {f : α → Op β} (h : Mild m) (hf : ∀ a, Mild (f a)) : Mild (m >>= f) :=
  Within.bind h hf

theorem mild_of_calm (h : Calm m) : Mild m := by
  rintro _ rfl
  have hm := h () trivial
  clear h
  induction m with
  | pure a => rfl
  | throw e => rfl
  | call c k ih =>
    obtain ⟨hcalm, hrest⟩ := hm
    cases c with
    | enter => cases hcalm
    | wait => cases hcalm
    | leave => cases hcalm
    | updateVpnState patch => cases hcalm
    | _ =>
      refine ⟨trivial, ?_⟩
      rintro x _ ⟨⟩
      exact ih x (hrest x () rfl)

theorem mild_perform {c : Cmd} (h : c.calm = true) : Mild (perform c) :=
  mild_of_calm (calm_perform h)

theorem mild_updateVpnState {patch : Settings → Settings}
    (h : ∀ s, (patch s).vpnStatus ≠ .connecting) : Mild (updateVpnState patch) := by
  refine Mild.bind (Within.perform ?_ ?_) fun _ => mild_of_calm calm_orThrow
  · exact fun _ _ => .inr h
  · rintro _ x _ rfl ⟨⟩
    rfl

theorem mild_correct {patch : Settings → Settings}
    (h : ∀ s, (patch s).vpnStatus ≠ .connecting) : Mild (do
      updateVpnState patch
      log .warn "vpn" "reconcile"
      getSettings) :=
  (mild_updateVpnState h).bind fun _ => mild_of_calm (calm_log.bind fun _ => calm_getSettings)

theorem errorPatch_status (message : String) (s : Settings) :
    (errorPatch message s).vpnStatus ≠ .connecting := by
  rintro ⟨⟩

theorem mild_reconcileRuntimeState : Mild reconcileRuntimeState := by
  refine (mild_of_calm calm_getSettings).bind fun current => ?_
  refine (mild_of_calm calm_getRuntimeTunnels).bind fun runtime => ?_
  split
  · exact .ite (mild_correct (errorPatch_status _)) .pure
  · refine .ite ?_ .pure
    refine (mild_perform rfl).bind fun ipInfo => (mild_perform rfl).bind fun now => ?_
    refine mild_correct fun s => ?_
    rintro ⟨⟩
  · exact mild_correct (errorPatch_status _)

theorem mild_getVpnStatusSummary : Mild getVpnStatusSummary := by
  refine mild_reconcileRuntimeState.bind fun settings => ?_
  have hname : Calm (profileName settings) := by
    unfold profileName
    split
    · exact .pure
    · exact (calm_perform rfl).bind fun _ => calm_orThrow.bind fun _ => .pure
    · exact .ite .pure ((calm_perform rfl).bind fun _ => calm_orThrow.bind fun _ => .pure)
    · exact .pure
    · exact .pure
  exact mild_of_calm (hname.bind fun _ => .pure)

theorem mild_assertIdle : Mild assertIdle := (mild_perform rfl).bind fun _ => .ite .throw .pure

theorem mild_registerRequest : Mild registerRequest := by
  have hallowed : Mild assertRegisterAllowed :=
    mild_assertIdle.bind fun _ => mild_getVpnStatusSummary.bind fun summary =>
      .ite .throw ((mild_perform rfl).bind fun status => .ite .throw .pure)
  exact hallowed.bind fun _ => mild_of_calm (calm_register.bind fun _ =>
    (calm_perform rfl).bind fun _ => .pure)

theorem calm_rotate : Calm (rotate rounds) := by
  have hrenew : Calm renewRegistration := (calm_perform rfl).bind fun _ => calm_register
  have hregistration : ∀ wasConnected, Calm (rotateRegistration rounds wasConnected) :=
    fun wasConnected => .ite
      ((calm_perform rfl).bind fun _ => hrenew.bind fun _ => calm_startWarp.bind fun _ =>
        calm_orFail.bind fun _ => calm_log)
      (hrenew.bind fun _ => calm_log)
  refine calm_requireDaemon.bind fun _ => (calm_perform rfl).bind fun before => ?_
  refine (hregistration before.connected).attempt.bind fun result => ?_
  split
  · exact .pure
  · exact calm_log.bind fun _ => .throw

theorem mild_rotateRequest : Mild (rotateRequest rounds) := by
  have hallowed : Mild assertRotateAllowed :=
    mild_assertIdle.bind fun _ => mild_getVpnStatusSummary.bind fun before =>
      .ite .throw (.ite .throw ((mild_perform rfl).bind fun status => .ite .pure .throw))
  have hrecord : Mild recordReconnected := by
    refine (mild_perform rfl).bind fun ipInfo => (mild_perform rfl).bind fun now => ?_
    refine (mild_updateVpnState fun s => ?_).bind fun _ => mild_getVpnStatusSummary.bind fun _ => .pure
    rintro ⟨⟩
  refine hallowed.bind fun _ => (mild_of_calm calm_rotate).bind fun reconnected => ?_
  exact .ite hrecord ((mild_perform rfl).bind fun _ => .pure)

end Mild

/-- **Every request** stores `connecting` under the lock only. -/
theorem keeps_program (r : Request) (rounds : ℕ) : Keeps (r.program rounds) false := by
  have hmild : ∀ {m : Op Result}, Mild m → Keeps m false := fun h =>
    Within.follows h rfl (fun _ _ _ => trivial) fun _ _ _ => trivial
  have hoperation : r.operation → Keeps (r.program rounds) false := fun h =>
    keeps_of_progress (operation_progress h rounds)
  cases r with
  | connectWireguard profileId => exact hoperation (.inl nofun)
  | connectOpenvpn profileId => exact hoperation (.inl nofun)
  | connectVpnGateServer serverId => exact hoperation (.inl nofun)
  | connectWarp => exact hoperation (.inl nofun)
  | disconnect => exact hoperation (.inr rfl)
  | register => exact hmild (mild_registerRequest.bind fun _ => .pure)
  | rotate => exact hmild (mild_rotateRequest.bind fun _ => .pure)
  | status => exact hmild (mild_getVpnStatusSummary.bind fun _ => .pure)

/-! ## The invariant -/

/-- Whoever has taken the lock holds it, and `connecting` is stored by the holder. -/
structure Inv (s : System) : Prop where
  /-- every request goes on from where it is -/
  keeps : ∀ i t, s.threads[i]? = some t →
    ∃ held, (held = true → s.shared.holder = some i) ∧ Keeps t.program held
  /-- `connecting` is stored while the lock is taken -/
  connecting : s.shared.settings.vpnStatus = .connecting → s.shared.holder ≠ none

variable {s s' : System}

/-- **One command** keeps the invariant. -/
theorem Inv.run (h : Inv s) {i : ℕ} {t : Thread} {answer : (c : Cmd) → c.Answer}
    (hi : s.threads[i]? = some t) (hcompleted : Completed s (.live (.run i answer)))
    (hs : t.step s i answer = some s') : Inv s' := by
  obtain ⟨own, hown, hkeeps⟩ := h.keeps i t hi
  rw [Thread.step] at hs
  split at hs
  case h_2 => cases hs
  case h_3 => cases hs
  next c k hprogram =>
  obtain ⟨shared, heffect, rfl⟩ := Option.map_eq_some_iff.mp hs
  rw [hprogram] at hkeeps
  obtain ⟨hallowed, hrest⟩ := hkeeps
  -- the others stay where they are
  have hset : ∀ next : Bool, keeping.next own c (answer c) = some next →
      (next = true → shared.holder = some i) →
      (∀ j, j ≠ i → s.shared.holder = some j → shared.holder = some j) →
      (shared.settings.vpnStatus = .connecting → shared.holder ≠ none) →
      Inv ⟨shared, s.threads.set i ⟨t.request, t.phase.next t.request c (answer c),
        k (answer c)⟩⟩ := by
    intro next hnext hholds hothers hconnecting
    refine ⟨fun j u hj => ?_, hconnecting⟩
    rcases getElem?_set_cases hj with ⟨rfl, rfl⟩ | ⟨hji, hj⟩
    · exact ⟨next, hholds, hrest _ _ hnext⟩
    · obtain ⟨other, hother, hkeeps⟩ := h.keeps j u hj
      exact ⟨other, fun hheld => hothers j hji (hother hheld), hkeeps⟩
  cases c with
  | enter =>
    have hsettings := effect_settings heffect fun _ h => by cases h
    change (if s.shared.holder = none then _ else _) = some shared at heffect
    split at heffect
    · next hnone =>
      obtain rfl := Option.some.inj heffect
      refine hset own rfl (fun _ => rfl) ?_ fun _ => Option.some_ne_none i
      intro j _ hj
      cases hnone.symm.trans hj
    · next hsome =>
      obtain rfl := Option.some.inj heffect
      exact hset own rfl hown (fun _ _ hj => hj) h.connecting
  | wait =>
    change (if s.shared.holder = some i then _ else _) = some shared at heffect
    split at heffect
    · next hholder =>
      obtain rfl := Option.some.inj heffect
      exact hset true rfl (fun _ => hholder) (fun _ _ hj => hj) h.connecting
    · cases heffect
  | leave =>
    obtain rfl := Option.some.inj heffect
    refine hset false rfl (fun h => by cases h) ?_ fun hstored => ?_
    · -- this request has the lock, so no other one has it
      intro j hji hj
      exact absurd (Option.some.inj (hj.symm.trans (hown hallowed))) hji
    · exact absurd hstored (hcompleted t k hi hprogram)
  | updateVpnState patch =>
    have hshared : ∀ x, effect i s.shared (.updateVpnState patch) x = some shared →
        shared = s.shared ∨ shared = { s.shared with settings := patch s.shared.settings } := by
      rintro (message | done) hx
      · exact .inl (Option.some.inj hx).symm
      · exact .inr (Option.some.inj hx).symm
    rcases hshared _ heffect with rfl | rfl
    · exact hset own rfl hown (fun _ _ hj => hj) h.connecting
    · refine hset own rfl hown (fun _ _ hj => hj) fun hstored => ?_
      rcases hallowed with hheld | hmild
      · exact fun hnone => by cases (hown hheld).symm.trans hnone
      · exact absurd hstored (hmild _)
  | _ =>
    have hsettings := effect_settings heffect fun _ h => by cases h
    have hholder := effect_holder heffect (fun h => by cases h) fun h => by cases h
    refine hset own rfl ?_ ?_ ?_
    · exact fun hheld => hholder.trans (hown hheld)
    · exact fun _ _ hj => hholder.trans hj
    · rw [hsettings, hholder]
      exact h.connecting

/-- **One step** keeps the invariant. -/
theorem Inv.step {a : Action} (h : Inv s) (hcompleted : Completed s a)
    (hs : step s a = some s') : Inv s' := by
  cases a with
  | crash level bypass =>
    obtain rfl := Option.some.inj hs
    exact ⟨nofun, fun hstored => absurd hstored hcompleted⟩
  | live a =>
    cases a with
    | request r rounds =>
      obtain rfl := Option.some.inj hs
      refine ⟨fun i t hi => ?_, h.connecting⟩
      rcases getElem?_append_cases hi with hi | rfl
      · exact h.keeps i t hi
      · exact ⟨false, nofun, keeps_program r rounds⟩
    | settle t up =>
      change (if _ then _ else _) = some s' at hs
      split at hs
      · obtain rfl := Option.some.inj hs
        exact ⟨h.keeps, h.connecting⟩
      · cases hs
    | run i answer =>
      obtain ⟨t, hi, hs⟩ := Option.bind_eq_some_iff.mp hs
      exact h.run hi hcompleted hs

/-! ## A connect operation that is alone -/

section Alone

variable {i rounds : ℕ} {s s' : State} {own : Tunnel} {source label : String}
  {profileId : Option String} {e : Failure} {establish : Option IpInfo → Op (String × Option String)}

/-- A failure that is no conflict. -/
def Passes (e : Failure) : Prop := e.conflict = false

theorem passes_of_other (h : Other e) : Passes e := by
  rw [Passes, ← Bool.not_eq_true]
  exact fun hconflict => h (.inl hconflict)

/-- No tunnel is up, so the looks see none. -/
theorem follows_getRuntimeTunnels_down (h : ∀ t, s.level t ≠ .up) :
    Follows (.ofEffect (effect i)) getRuntimeTunnels s
      (fun runtime s' => s'.core = s.core ∧ runtime = []) (fun _ _ => False) := by
  refine follows_getRuntimeTunnels.mono ?_ fun _ _ he => he
  rintro _ s₁ ⟨seen, hlooked, rfl⟩
  have hunseen : ∀ t, seen t = false := by
    intro t
    by_contra hseen
    exact h t (hlooked.up t (by simpa using hseen))
  exact ⟨hlooked.core, by rw [hunseen, hunseen, hunseen]; rfl⟩

/-- Then a stored `connected` is corrected. -/
theorem follows_reconcileRuntimeState_down (h : ∀ t, s.level t ≠ .up)
    (hstored : s.settings.vpnStatus ≠ .connecting) :
    Follows (.ofEffect (effect i)) reconcileRuntimeState s
      (fun current s' => s'.level = s.level ∧ current.vpnStatus ≠ .connecting ∧
        current.vpnStatus ≠ .connected) (fun e _ => Passes e) := by
  refine follows_bind.mpr (follows_getSettings.mono ?_ fun _ _ he => passes_of_other he)
  rintro _ s₀ ⟨hs₀, rfl⟩
  obtain rfl := hs₀.symm
  refine follows_bind.mpr ((follows_getRuntimeTunnels_down h).mono ?_ fun _ _ he => he.elim)
  rintro _ s₁ ⟨hcore, rfl⟩
  have hlevel : s₁.level = s.level := congrArg Core.level hcore
  refine follows_ite.mpr ⟨fun _ => ?_, fun hnot => ⟨hlevel, hstored, hnot⟩⟩
  refine follows_correct.mono ?_ fun _ _ he => passes_of_other he
  rintro _ _ ⟨rfl, rfl⟩
  exact ⟨hlevel, nofun, nofun⟩

/-- And the check lets the operation pass. -/
theorem follows_assertCanStartConnection_down (h : ∀ t, s.level t ≠ .up)
    (hstored : s.settings.vpnStatus ≠ .connecting) :
    Follows (.ofEffect (effect i)) assertCanStartConnection s (fun _ _ => True)
      (fun e _ => Passes e) := by
  refine follows_bind.mpr ((follows_reconcileRuntimeState_down h hstored).mono ?_ fun _ _ he => he)
  rintro current s₁ ⟨hlevel, hconnecting, hconnected⟩
  have hdown : ∀ t, s₁.level t ≠ .up := fun t ht => h t ((congrFun hlevel t).symm.trans ht)
  refine follows_bind.mpr ((follows_getRuntimeTunnels_down hdown).mono ?_ fun _ _ he => he.elim)
  rintro _ s₂ ⟨-, rfl⟩
  refine follows_ite.mpr ⟨fun h => absurd h hconnecting, fun _ => follows_ite.mpr ⟨?_, fun _ => trivial⟩⟩
  rintro (h | h)
  · exact absurd rfl h
  · exact absurd h hconnected

/-- The operation ends with no conflict. -/
def Passed (result : Result) : Prop := ∀ e, result = some e → Passes e

theorem follows_connectFailed_passes (he : Passes e) :
    Follows (.ofEffect (effect i)) (connectFailed source own profileId label e) s
      (fun result _ => Passed result) (fun e _ => Passes e) := by
  have hclean : Follows (.ofEffect (effect i)) (do
      let _ ← perform (.stop own)
      perform .cleanupBypassRouting
      markError own profileId label e.message
      log .error source "connection_failure"
      return some e) s (fun result _ => Passed result) (fun e _ => Passes e) := by
    refine follows_bind.mpr ⟨trivial, ?_⟩
    rintro x _ ⟨⟩
    refine follows_bind.mpr ⟨trivial, ?_⟩
    rintro _ _ ⟨⟩
    refine follows_bind.mpr (follows_updateVpnState.mono ?_ fun _ _ he => passes_of_other he)
    rintro _ _ rfl
    refine follows_bind.mpr (follows_log.mono ?_ fun _ _ he => passes_of_other he)
    rintro _ _ rfl _ ⟨⟩
    exact he
  cases e
  case connecting => cases he
  case connected => cases he
  all_goals exact hclean

theorem follows_connectTunnel_passes (hdown : ∀ t, s.level t ≠ .up)
    (hstored : s.settings.vpnStatus ≠ .connecting)
    (h : ∀ baseline, Throws Other (establish baseline)) :
    Follows (.ofEffect (effect i)) (connectTunnel source own profileId label establish) s
      (fun result _ => Passed result) (fun e _ => Passes e) := by
  have hbringUp : Follows (.ofEffect (effect i)) (bringUp source own profileId label establish) s
      (fun _ _ => True) (fun e _ => Passes e) := by
    refine follows_bind.mpr
      ((follows_assertCanStartConnection_down hdown hstored).mono ?_ fun _ _ he => he)
    rintro _ s₁ -
    refine ((throws_bringUp h).follows fun _ _ => trivial).mono (fun _ _ _ => trivial) ?_
    exact fun _ _ he => passes_of_other he
  refine follows_bind.mpr (follows_attempt.mpr (hbringUp.mono ?_ ?_))
  · rintro _ s₁ -
    exact nofun
  · exact fun e s₁ he => follows_connectFailed_passes he

/-- The frame of an operation that finds the lock free. -/
theorem follows_locked_passes {m : Op Result} (hs : Free s)
    (h : ∀ s₀ : State, s₀.level = s.level → s₀.settings = s.settings →
      Follows (.ofEffect (effect i)) m s₀ (fun result _ => Passed result) (fun e _ => Passes e)) :
    Follows (.ofEffect (effect i)) (locked m) s (fun result _ => Passed result)
      (fun e _ => Passes e) := by
  refine follows_bind.mpr (follows_bind.mpr ⟨trivial, ?_⟩)
  intro _ s₁ h₁
  change (if s.holder = none then _ else _) = some s₁ at h₁
  rw [if_pos hs.holder] at h₁
  obtain rfl := Option.some.inj h₁
  refine ⟨trivial, ?_⟩
  intro _ s₂ h₂
  change (if some i = some i then _ else _) = some s₂ at h₂
  rw [if_pos rfl] at h₂
  obtain rfl := Option.some.inj h₂
  refine follows_finallyDo.mpr ((h { s with holder := some i } rfl rfl).mono ?_ ?_)
  · intro result s₃ hresult
    exact ⟨trivial, fun _ _ _ => hresult⟩
  · intro e s₃ he
    exact ⟨trivial, fun _ _ _ => he⟩

/-- **A connect operation** that finds the lock free, no tunnel up and `connecting` not stored is
not refused because of another connection. -/
theorem follows_connect_passes {r : Request} (hr : r.target ≠ none) (hs : Free s)
    (hstored : s.settings.vpnStatus ≠ .connecting) :
    Follows (.ofEffect (effect i)) (r.program rounds) s (fun result _ => Passed result)
      (fun e _ => Passes e) := by
  have hconnect : ∀ {source : String} {own : Tunnel} {profileId : Option String} {label : String}
      {establish : Option IpInfo → Op (String × Option String)} {s₀ : State},
      s₀.level = s.level → s₀.settings = s.settings →
      (∀ baseline, Throws Other (establish baseline)) →
      Follows (.ofEffect (effect i)) (connectTunnel source own profileId label establish) s₀
        (fun result _ => Passed result) (fun e _ => Passes e) := by
    intro _ _ _ _ _ s₀ hlevel hsettings h
    refine follows_connectTunnel_passes (fun t ht => ?_) ?_ h
    · exact hs.down t ((congrFun hlevel t).symm.trans ht)
    · rw [hsettings]
      exact hstored
  cases r with
  | connectWireguard profileId =>
    refine follows_locked_passes hs fun s₀ hlevel hsettings => follows_bind.mpr ⟨trivial, ?_⟩
    rintro found _ ⟨⟩
    refine follows_bind.mpr (follows_attempt.mpr (follows_requireProfile.mono ?_ ?_))
    · rintro profile _ rfl
      exact hconnect hlevel hsettings fun _ => throws_establishWireguard
    · rintro e _ ⟨rfl, he⟩
      exact follows_connectFailed_passes he
  | connectOpenvpn profileId =>
    refine follows_locked_passes hs fun s₀ hlevel hsettings => follows_bind.mpr ⟨trivial, ?_⟩
    rintro found _ ⟨⟩
    refine follows_bind.mpr (follows_attempt.mpr (follows_requireProfile.mono ?_ ?_))
    · rintro profile _ rfl
      exact hconnect hlevel hsettings fun _ => throws_establishOpenvpn
    · rintro e _ ⟨rfl, he⟩
      exact follows_connectFailed_passes he
  | connectVpnGateServer serverId =>
    refine follows_locked_passes hs fun s₀ hlevel hsettings => ?_
    refine follows_bind.mpr (follows_attempt.mpr (follows_requireServer.mono ?_ ?_))
    · rintro server _ rfl
      refine follows_bind.mpr ⟨trivial, ?_⟩
      rintro (message | _) _ ⟨⟩
      · exact follows_connectFailed_passes rfl
      · exact hconnect hlevel hsettings fun _ => throws_establishOpenvpn
    · rintro e _ ⟨rfl, he⟩
      exact follows_connectFailed_passes he
  | connectWarp =>
    exact follows_locked_passes hs fun s₀ hlevel hsettings =>
      hconnect hlevel hsettings fun _ => throws_establishWarp
  | _ => exact absurd rfl hr

end Alone

/-- No operation is refused where `connecting` is not stored. -/
theorem open_of_stored (hfree : Free s.shared) (hstored : s.shared.settings.vpnStatus ≠ .connecting) :
    Open s := by
  intro r rounds x s' hr hrun
  have h := (follows_connect_passes hr hfree hstored).of_runs hrun
  rcases x with e | (_ | e)
  · rw [Conflicts, (h.2 e rfl : e.conflict = false)]
    exact Bool.false_ne_true
  · exact not_false
  · rw [Conflicts, (h.1 _ rfl e rfl : e.conflict = false)]
    exact Bool.false_ne_true

/-- After three looks that see nothing. -/
def unseen (s : State) : State :=
  ((s.record (.look .openvpn false)).record (.look .wireguard false)).record (.look .warp false)

/-- Where it is stored, WARP is refused after such looks. -/
theorem stored_of_open (hfree : Free s.shared) (hopen : Open s) :
    s.shared.settings.vpnStatus ≠ .connecting := by
  intro hstored
  obtain ⟨⟨level, bypass, settings, holder, queue, history⟩, threads⟩ := s
  obtain ⟨type, profileId, label, status, error, connectedAt, publicIp, country⟩ := settings
  obtain rfl : holder = none := hfree.holder
  obtain rfl : status = .connecting := hstored
  let inside : State :=
    ⟨level, bypass, ⟨type, profileId, label, .connecting, error, connectedAt, publicIp, country⟩,
      some threads.length, queue, history⟩
  refine hopen .connectWarp 0 (.ok (some .connecting))
    { unseen (unseen inside) with holder := queue.head?, queue := queue.tail } nofun ?_ rfl
  have hwait : effect threads.length inside .wait () = some inside := if_pos rfl
  have hsettings : effect threads.length inside .getSettings (.ok inside.settings) = some inside :=
    if_pos rfl
  refine .call (x := ()) rfl (.call (x := ()) hwait (.call (x := .ok _) hsettings ?_))
  -- the looks of the reconciliation, and those after it
  refine .call (x := false) rfl (.call (x := true) rfl ?_)
  refine .call (x := false) rfl (.call (x := ⟨true, false⟩) rfl ?_)
  refine .call (x := false) rfl (.call (x := true) rfl ?_)
  refine .call (x := false) rfl (.call (x := ⟨true, false⟩) rfl ?_)
  refine .call (x := .ok ()) rfl ?_
  refine .call (x := ()) rfl ?_
  exact .pure

/-- Where the lock is free and no tunnel is up, the stored status alone decides. -/
theorem open_iff (hfree : Free s.shared) : Open s ↔ s.shared.settings.vpnStatus ≠ .connecting :=
  ⟨stored_of_open hfree, open_of_stored hfree⟩

/-! ## The result -/

/-- **A dead connect does not block the next one** in a run in which neither a crash nor a release
of the lock comes while `connecting` is stored. -/
theorem connect_not_blocked (hrun : Run step Completed initial s) (hfree : Free s.shared) :
    Open s := by
  have hinv : Inv s := by
    refine hrun.invariant (I := Inv) (fun _ _ _ h hcompleted hs => h.step hcompleted hs) ?_
    exact ⟨nofun, nofun⟩
  refine open_of_stored hfree fun hstored => ?_
  exact hinv.connecting hstored hfree.holder

/-! ## Scripted runs -/

/-- A line of a script: a move of the requests, or a crash that takes the tunnels down. -/
inductive Move where
  | live (m : Vpn.Move)
  | crash

/-- What happens at a line. -/
def Move.action (s : System) : Move → Action
  | live m => .live (m.action s)
  | crash => .crash (fun _ => .down) []

/-- The program is about to release the lock. -/
def leaves : Op Result → Bool
  | .call .leave _ => true
  | _ => false

/-- A test for `Completed`. -/
def completed (s : System) : Action → Bool
  | .live (.run i _) =>
    match s.threads[i]? with
    | some t => !(leaves t.program && s.shared.settings.vpnStatus = .connecting)
    | none => true
  | .live _ => true
  | .crash _ _ => !(s.shared.settings.vpnStatus = .connecting)

theorem completed_sound (s : System) (a : Action) (h : completed s a = true) : Completed s a := by
  cases a with
  | crash level bypass =>
    have hstored : s.shared.settings.vpnStatus ≠ .connecting := by simpa [completed] using h
    exact hstored
  | live a =>
    cases a with
    | request r rounds => trivial
    | settle t up => trivial
    | run i answer =>
      intro t k hi hprogram
      simpa [completed, hi, hprogram, leaves] using h

/-- The stored status, whether the lock is free, and the tunnels. -/
def summary (s : System) : VpnStatus × Option ℕ × List Level :=
  (s.shared.settings.vpnStatus, s.shared.holder, allTunnels.map s.shared.level)

theorem free_of_summary {status : VpnStatus}
    (h : summary s = (status, none, [.down, .down, .down])) :
    Free s.shared ∧ s.shared.settings.vpnStatus = status := by
  obtain ⟨hstatus, h⟩ := Prod.mk.inj h
  obtain ⟨hholder, hlevels⟩ := Prod.mk.inj h
  refine ⟨⟨hholder, fun t ht => ?_⟩, hstatus⟩
  have hmem := List.mem_map_of_mem (f := s.shared.level) (mem_allTunnels t)
  rw [hlevels, ht] at hmem
  simp at hmem

/-- WARP is connected, the process ends, and a poll comes after it. -/
def crashConnected : List Move :=
  warpConnects.map .live ++ .crash :: .live (.request .status) ::
    List.replicate 8 (.live (.turn 0))

/-- The next connect is not refused. -/
theorem connect_not_blocked_connected :
    ∃ s, Run step Completed initial s ∧ Free s.shared ∧ Open s := by
  have h : (exec (fun s (m : Move) => if completed s (m.action s) then step s (m.action s) else none)
      initial crashConnected).map summary = some (.error, none, [.down, .down, .down]) := by
    rfl
  obtain ⟨s, hrun, hsummary⟩ := Run.of_strategy completed_sound h
  obtain ⟨hfree, -⟩ := free_of_summary hsummary
  exact ⟨s, hrun, hfree, connect_not_blocked hrun hfree⟩

/-! ## A crash while connecting -/

/-- WARP is on its way, the process ends, and a poll comes after it. -/
def crashConnecting : List Move :=
  .live (.request .connectWarp) :: List.replicate 21 (.live (.turn 0)) ++ .crash ::
    .live (.request .status) :: List.replicate 5 (.live (.turn 0))

/-- **The claim fails**: nobody has the lock and no tunnel is up, a poll has come to its end after
the crash, and WARP is refused for good. -/
theorem dead_connect_blocks :
    ∃ s, Run step (fun _ _ => True) initial s ∧ Free s.shared ∧ ¬Open s := by
  have hany : ∀ s a, (fun (_ : System) (_ : Action) => true) s a = true →
      (fun (_ : System) (_ : Action) => True) s a := fun _ _ _ => trivial
  have h : (exec (fun s (m : Move) => if (fun (_ : System) (_ : Action) => true) s (m.action s) then
      step s (m.action s) else none) initial crashConnecting).map summary =
        some (.connecting, none, [.down, .down, .down]) := by
    rfl
  obtain ⟨s, hrun, hsummary⟩ := Run.of_strategy hany h
  obtain ⟨hfree, hstored⟩ := free_of_summary hsummary
  exact ⟨s, hrun, hfree, fun hopen => stored_of_open hfree hopen hstored⟩

end IptvProxy.Vpn.Restart
