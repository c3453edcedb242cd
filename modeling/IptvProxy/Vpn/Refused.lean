import IptvProxy.Vpn.System

/-!
# Refused connects

A connect operation that is alone: `Runs (effect i)` from a state in which the lock is free. An
operation that is refused because of another connection leaves everything as it is, if its first
status queries see that connection. An operation whose profile or server does not exist, or is
disabled, runs the same clean-up as one that fails half-way (`unknown_profile_disconnects`).
-/

namespace IptvProxy.Vpn

open Effect

/-- Refused because of another connection, a `VpnConflictError`. -/
def Failure.conflict : Failure → Bool
  | connecting => true
  | connected _ => true
  | _ => false

/-- Refused because of the profile or the server. -/
def Failure.lookup : Failure → Bool
  | notFound _ => true
  | disabled _ => true
  | _ => false

/-- Refused. -/
def Failure.Refused (e : Failure) : Prop := e.conflict = true ∨ e.lookup = true

/-- What a refused operation must leave as it is. -/
structure Core where
  /-- the tunnels -/
  level : Tunnel → Level
  /-- the bypass routing -/
  bypass : List String
  /-- what is stored -/
  settings : Settings

/-- Without the lock and the history. -/
def State.core (s : State) : Core := ⟨s.level, s.bypass, s.settings⟩

/-- The stored state has the tunnel that is up. -/
structure Core.Established (s : Core) (t : Tunnel) : Prop where
  /-- the status -/
  status : s.settings.vpnStatus = .connected
  /-- the type -/
  type : s.settings.activeVpnType = some t
  /-- the tunnel -/
  up : s.level t = .up
  /-- it is the only one -/
  only : ∀ u, s.level u = .up → u = t

/-- Nothing has changed: the tunnels, the bypass routing, and what is stored of an established
connection. -/
structure Unchanged (s s' : Core) : Prop where
  /-- the tunnels -/
  level : s'.level = s.level
  /-- the bypass routing -/
  bypass : s'.bypass = s.bypass
  /-- what is stored -/
  settings : ∀ t, s.Established t →
    s'.settings.activeVpnType = s.settings.activeVpnType ∧
    s'.settings.activeVpnProfileId = s.settings.activeVpnProfileId ∧
    s'.settings.activeVpnLabel = s.settings.activeVpnLabel ∧
    s'.settings.vpnStatus = s.settings.vpnStatus ∧
    s'.settings.vpnConnectedAt = s.settings.vpnConnectedAt

/-- What the first look at tunnel `t` saw. -/
def firstLook (t : Tunnel) : List Event → Option Bool
  | [] => none
  | .look u seen :: es => if u = t then some seen else firstLook t es
  | .stop _ _ :: es => firstLook t es

/-- A call begins. -/
def State.begin (s : State) : State := { s with history := [] }

/-- When a refusal does no harm. A conflict: the first look at an established connection saw it. A
lookup: there is no established connection and no bypass routing, and the tunnel of the operation
is down, or its stop command has left it. -/
def Harmless (own : Tunnel) (e : Failure) (s : Core) (history : List Event) : Prop :=
  if e.conflict then ∀ t, s.Established t → firstLook t history = some true
  else (∀ t, ¬s.Established t) ∧ s.bypass = [] ∧
    (s.level own = .down ∨ .stop own false ∈ history)

/-! ## After the check -/

section Throws

variable {rounds : ℕ}

/-- Failures from after the check are no refusals. -/
def Other (e : Failure) : Prop := ¬e.Refused

theorem other_other {message : String} : Other (.other message) := by
  rintro (h | h) <;> cases h

theorem throws_orThrow {α : Type} {x : Except String α} : Throws Other (orThrow x) := by
  cases x
  · exact other_other
  · trivial

theorem throws_orFail {x : Option String} : Throws Other (orFail x) := by
  cases x
  · trivial
  · exact other_other

theorem throws_log {level : LogLevel} {source category : String} :
    Throws Other (log level source category) := .bind .perform fun _ => throws_orThrow

theorem throws_updateVpnState {patch : Settings → Settings} :
    Throws Other (updateVpnState patch) := .bind .perform fun _ => throws_orThrow

theorem throws_prepareForConnection : Throws Other prepareForConnection := by
  have hstop : Throws Other stopAllTunnels :=
    .bind .perform fun _ => .bind .perform fun _ => .bind .perform fun _ => .pure
  have hprepare : Throws Other prepareBypassRouting := by
    refine .bind .attempt fun result => ?_
    split
    · exact .pure
    · exact .bind throws_log fun _ => other_other
  exact .bind hstop fun _ => .bind .perform fun _ => .bind .perform fun _ =>
    .bind hprepare fun _ => .pure

theorem throws_verifyWireguard {baseline ipInfo : Option IpInfo} {handshake : Bool} :
    Throws Other (verifyWireguard baseline rounds ipInfo handshake) := by
  induction rounds generalizing ipInfo handshake with
  | zero => exact .pure
  | succ rounds ih => exact .bind .perform fun _ => .bind .perform fun _ => .ite .pure ih

theorem throws_establishWireguard {baseline : Option IpInfo} :
    Throws Other (establishWireguard rounds baseline) := by
  have hstart : Throws Other startWireguard := by
    refine .bind .attempt fun result => ?_
    split
    · exact .pure
    · exact .bind .perform fun _ => .pure
  refine .bind hstart fun _ => .bind throws_orFail fun _ => .bind throws_verifyWireguard fun _ => ?_
  refine .bind .perform fun _ => .ite other_other ?_
  split
  · exact other_other
  · exact .ite other_other .pure

theorem throws_establishOpenvpn {gone unverified : String} {fallback : Option String} :
    Throws Other (establishOpenvpn rounds gone unverified fallback) := by
  have hawait : ∀ rounds, Throws Other (awaitOpenvpn rounds) := by
    intro rounds
    induction rounds with
    | zero => exact .pure
    | succ rounds ih =>
      refine .bind .perform fun poll => ?_
      split
      · exact .pure
      · exact .pure
      · exact ih
  have hstart : Throws Other (startOpenvpn rounds) := by
    refine .bind .perform fun spawned => ?_
    split
    · exact .pure
    · exact hawait rounds
  refine .bind hstart fun _ => .bind throws_orFail fun _ => .bind .perform fun _ => ?_
  refine .ite other_other (.bind .perform fun seen => ?_)
  split
  · exact other_other
  · exact .pure

theorem throws_establishWarp : Throws Other (establishWarp rounds) := by
  have hstart : Throws Other (startWarp rounds) := by
    refine .bind .attempt fun result => ?_
    split <;> exact .pure
  refine .bind hstart fun _ => .bind throws_orFail fun _ => .bind .perform fun _ => ?_
  refine .ite other_other (.bind .perform fun seen => ?_)
  split
  · exact other_other
  · exact .pure

end Throws

/-! ## The check -/

theorem firstLook_append {t : Tunnel} {es fs : List Event} :
    firstLook t (es ++ fs) = (firstLook t es).or (firstLook t fs) := by
  induction es with
  | nil => rfl
  | cons e es ih =>
    cases e with
    | look u seen =>
      simp only [List.cons_append, firstLook]
      split
      · rfl
      · exact ih
    | stop u stopped => exact ih

variable {i rounds : ℕ} {s s' : State} {t own : Tunnel}

theorem State.look_eq {seen : Bool} (h : s.look t seen = some s') :
    s' = s.record (.look t seen) ∧ (seen = true → s.level t = .up) := by
  rw [State.look] at h
  split at h
  · cases h
  · next hup =>
    refine ⟨(Option.some.inj h).symm, fun hseen => ?_⟩
    by_contra hl
    exact hup ⟨hseen, hl⟩

/-- What three looks find out. -/
structure Looked (s s' : State) (seen : Tunnel → Bool) : Prop where
  /-- nothing else changes -/
  core : s'.core = s.core
  /-- a look is not wrong about a tunnel that it sees -/
  up : ∀ t, seen t = true → s.level t = .up
  /-- first looks stay first -/
  first : ∀ t, firstLook t s'.history = (firstLook t s.history).or (some (seen t))

/-- The three looks together. -/
def seenBy (wireguard openvpn warp : Bool) : Tunnel → Bool
  | .wireguard => wireguard
  | .openvpn => openvpn
  | .warp => warp

theorem follows_getRuntimeTunnels :
    Follows (.ofEffect (effect i)) getRuntimeTunnels s
      (fun runtime s' => ∃ seen, Looked s s' seen ∧
        runtime = activeTunnels (seen .wireguard) (seen .openvpn) (seen .warp))
      (fun _ _ => False) := by
  refine follows_bind.mpr ⟨trivial, ?_⟩
  rintro openvpn s₁ h₁
  obtain ⟨rfl, hopenvpn⟩ := State.look_eq h₁
  refine follows_bind.mpr ⟨trivial, ?_⟩
  rintro first s₂ h₂
  obtain rfl := Option.some.inj h₂
  cases first with
  | true =>
    refine follows_bind.mpr (follows_bind.mpr ⟨trivial, ?_⟩)
    rintro wireguard s₃ h₃
    obtain ⟨rfl, hwireguard⟩ := State.look_eq h₃
    refine follows_bind.mpr ⟨trivial, ?_⟩
    rintro status s₄ h₄
    obtain ⟨rfl, hwarp⟩ := State.look_eq h₄
    refine ⟨seenBy wireguard openvpn status.connected, ⟨rfl, ?_, fun t => ?_⟩, rfl⟩
    · rintro (_ | _ | _) h
      · exact hwireguard h
      · exact hopenvpn h
      · exact hwarp h
    · simp only [State.record, List.append_assoc, firstLook_append]
      cases t <;> rfl
  | false =>
    refine follows_bind.mpr (follows_bind.mpr ⟨trivial, ?_⟩)
    rintro status s₃ h₃
    obtain ⟨rfl, hwarp⟩ := State.look_eq h₃
    refine follows_bind.mpr ⟨trivial, ?_⟩
    rintro wireguard s₄ h₄
    obtain ⟨rfl, hwireguard⟩ := State.look_eq h₄
    refine ⟨seenBy wireguard openvpn status.connected, ⟨rfl, ?_, fun t => ?_⟩, rfl⟩
    · rintro (_ | _ | _) h
      · exact hwireguard h
      · exact hopenvpn h
      · exact hwarp h
    · simp only [State.record, List.append_assoc, firstLook_append]
      cases t <;> rfl

/-- What `reconcileRuntimeState` does to an established connection, after looks that see `seen`. -/
structure Reconciled (s s' : State) (seen : Tunnel → Bool) : Prop where
  /-- the tunnels -/
  level : s'.level = s.level
  /-- the bypass routing -/
  bypass : s'.bypass = s.bypass
  /-- the looks -/
  first : ∀ t, firstLook t s'.history = (firstLook t s.history).or (some (seen t))
  /-- a connection that is seen stays -/
  kept : ∀ t, s.core.Established t → seen t = true → s'.settings = s.settings
  /-- a connection that is not seen is lost -/
  lost : ∀ t, s.core.Established t → seen t = false → s'.settings.vpnStatus ≠ .connected

/-- What the looks at an established connection make of the list. -/
theorem activeTunnels_of_established {seen : Tunnel → Bool} (h : s.core.Established t)
    (hup : ∀ u, seen u = true → s.level u = .up) :
    activeTunnels (seen .wireguard) (seen .openvpn) (seen .warp) =
      if seen t then [t] else [] := by
  have hothers : ∀ u, u ≠ t → seen u = false := by
    intro u hu
    by_contra hseen
    exact hu (h.only u (hup u (by simpa using hseen)))
  cases t with
  | wireguard =>
    rw [hothers .openvpn (by decide), hothers .warp (by decide)]
    cases seen .wireguard <;> rfl
  | openvpn =>
    rw [hothers .wireguard (by decide), hothers .warp (by decide)]
    cases seen .openvpn <;> rfl
  | warp =>
    rw [hothers .wireguard (by decide), hothers .openvpn (by decide)]
    cases seen .warp <;> rfl

theorem follows_getSettings :
    Follows (.ofEffect (effect i)) getSettings s
      (fun current s' => s' = s ∧ current = s.settings) (fun e _ => Other e) := by
  refine follows_bind.mpr ⟨trivial, ?_⟩
  rintro (message | settings) s' h
  · exact follows_orThrow.mpr ⟨by rintro _ ⟨⟩, fun _ _ => other_other⟩
  · change (if settings = s.settings then some s else none) = some s' at h
    split at h
    · next heq =>
      obtain rfl := Option.some.inj h
      exact ⟨rfl, heq⟩
    · cases h

theorem follows_log {level : LogLevel} {source category : String} :
    Follows (.ofEffect (effect i)) (log level source category) s (fun _ s' => s' = s)
      (fun e _ => Other e) := by
  refine follows_bind.mpr ⟨trivial, ?_⟩
  rintro (message | _) s' h
  · exact follows_orThrow.mpr ⟨by rintro _ ⟨⟩, fun _ _ => other_other⟩
  · exact (Option.some.inj h).symm

theorem follows_updateVpnState {patch : Settings → Settings} :
    Follows (.ofEffect (effect i)) (updateVpnState patch) s
      (fun _ s' => s' = { s with settings := patch s.settings }) (fun e _ => Other e) := by
  refine follows_bind.mpr ⟨trivial, ?_⟩
  rintro (message | _) s' h
  · exact follows_orThrow.mpr ⟨by rintro _ ⟨⟩, fun _ _ => other_other⟩
  · exact (Option.some.inj h).symm

/-- A correction is stored. -/
theorem follows_correct {patch : Settings → Settings} :
    Follows (.ofEffect (effect i)) (do
      updateVpnState patch
      log .warn "vpn" "reconcile"
      getSettings) s
      (fun current s' => s' = { s with settings := patch s.settings } ∧ current = s'.settings)
      (fun e _ => Other e) := by
  refine follows_bind.mpr (follows_updateVpnState.mono ?_ fun _ _ he => he)
  rintro _ _ rfl
  refine follows_bind.mpr (follows_log.mono ?_ fun _ _ he => he)
  rintro _ _ rfl
  refine follows_getSettings.mono ?_ fun _ _ he => he
  rintro current _ ⟨rfl, hcurrent⟩
  exact ⟨rfl, hcurrent⟩

theorem follows_reconcileRuntimeState :
    Follows (.ofEffect (effect i)) reconcileRuntimeState s
      (fun current s' => (∃ seen, Reconciled s s' seen) ∧ current = s'.settings)
      (fun e _ => Other e) := by
  refine follows_bind.mpr (follows_getSettings.mono ?_ fun _ _ he => he)
  rintro _ s₀ ⟨hs₀, rfl⟩
  obtain rfl := hs₀.symm
  refine follows_bind.mpr (follows_getRuntimeTunnels.mono ?_ fun _ _ he => he.elim)
  rintro _ s₁ ⟨seen, hlooked, rfl⟩
  have hlevel : s₁.level = s.level := congrArg Core.level hlooked.core
  have hbypass : s₁.bypass = s.bypass := congrArg Core.bypass hlooked.core
  have hsettings : s₁.settings = s.settings := congrArg Core.settings hlooked.core
  -- the settings stay, and the looks are no reason to correct them
  have hstay : (∀ t, s.core.Established t → seen t = true) →
      (∃ seen, Reconciled s s₁ seen) ∧ s.settings = s₁.settings := fun hseen =>
    ⟨⟨seen, hlevel, hbypass, hlooked.first, fun _ _ _ => hsettings, fun t ht hnot =>
      absurd ((hseen t ht).symm.trans hnot) (by decide)⟩, hsettings.symm⟩
  -- they are corrected
  have hcorrect : ∀ patch : Settings → Settings,
      (∀ t, s.core.Established t → seen t = false) →
      ((∃ t, s.core.Established t) → (patch s.settings).vpnStatus ≠ .connected) →
      Follows (.ofEffect (effect i)) (do
        updateVpnState patch
        log .warn "vpn" "reconcile"
        getSettings) s₁
        (fun current s' => (∃ seen, Reconciled s s' seen) ∧ current = s'.settings)
        (fun e _ => Other e) := by
    intro patch hunseen hpatch
    refine follows_correct.mono ?_ fun _ _ he => he
    rintro current _ ⟨rfl, hcurrent⟩
    refine ⟨⟨seen, hlevel, hbypass, hlooked.first, fun t ht hseen => ?_, fun t ht _ => ?_⟩, hcurrent⟩
    · exact absurd ((hunseen t ht).symm.trans hseen) (by decide)
    · change (patch s₁.settings).vpnStatus ≠ _
      rw [hsettings]
      exact hpatch ⟨t, ht⟩
  have hlist := fun t (ht : s.core.Established t) => activeTunnels_of_established ht hlooked.up
  split
  · next hnone =>
    have hunseen : ∀ t, s.core.Established t → seen t = false := by
      intro t ht
      by_contra hseen
      rw [hlist t ht, if_pos (by simpa using hseen)] at hnone
      cases hnone
    refine follows_ite.mpr ⟨fun _ => hcorrect _ hunseen fun _ => ?_, fun hnot => ?_⟩
    · rintro ⟨⟩
    · exact hstay fun t ht => absurd ht.status hnot
  · next actual hone =>
    have hseen : ∀ t, s.core.Established t → seen t = true ∧ actual = t := by
      intro t ht
      rw [hlist t ht] at hone
      split at hone
      · next hseen => exact ⟨hseen, (List.head_eq_of_cons_eq hone).symm⟩
      · cases hone
    refine follows_ite.mpr ⟨fun hwrong => ?_, fun _ => hstay fun t ht => (hseen t ht).1⟩
    -- an established connection that is seen is not corrected
    have hnone : ∀ t, ¬s.core.Established t := by
      intro t ht
      obtain ⟨-, rfl⟩ := hseen t ht
      exact hwrong.elim (fun h => h ht.status) fun h => h ht.type
    refine follows_bind.mpr ⟨trivial, ?_⟩
    rintro ipInfo _ ⟨⟩
    refine follows_bind.mpr ⟨trivial, ?_⟩
    rintro now _ ⟨⟩
    exact hcorrect _ (fun t ht => absurd ht (hnone t)) fun ⟨t, ht⟩ => absurd ht (hnone t)
  · next hempty hsingle =>
    have hnone : ∀ t, ¬s.core.Established t := by
      intro t ht
      have h := hlist t ht
      split at h
      · exact hsingle t h
      · exact hempty h
    exact hcorrect _ (fun t ht => absurd ht (hnone t)) fun ⟨t, ht⟩ => absurd ht (hnone t)

/-- Later looks change nothing. -/
theorem Reconciled.looked {seen seen' : Tunnel → Bool} {s'' : State} (h : Reconciled s s' seen)
    (hlooked : Looked s' s'' seen') : Reconciled s s'' seen where
  level := (congrArg Core.level hlooked.core).trans h.level
  bypass := (congrArg Core.bypass hlooked.core).trans h.bypass
  first t := by
    rw [hlooked.first, h.first]
    cases firstLook t s.history <;> rfl
  kept t ht hseen := (congrArg Core.settings hlooked.core).trans (h.kept t ht hseen)
  lost t ht hseen := by
    rw [show s''.settings = s'.settings from congrArg Core.settings hlooked.core]
    exact h.lost t ht hseen

/-- A conflict is found after reconciliation, and before anything else. -/
theorem follows_assertCanStartConnection :
    Follows (.ofEffect (effect i)) assertCanStartConnection s (fun _ _ => True)
      (fun e s' => Other e ∨ e.conflict = true ∧ ∃ seen, Reconciled s s' seen) := by
  refine follows_bind.mpr (follows_reconcileRuntimeState.mono ?_ fun _ _ he => .inl he)
  rintro current s₁ ⟨⟨seen, hreconciled⟩, -⟩
  refine follows_bind.mpr (follows_getRuntimeTunnels.mono ?_ fun _ _ he => he.elim)
  rintro runtime s₂ ⟨seen', hlooked, -⟩
  have hconflict := hreconciled.looked hlooked
  exact follows_ite.mpr ⟨fun _ => .inr ⟨rfl, seen, hconflict⟩, fun _ =>
    follows_ite.mpr ⟨fun _ => .inr ⟨rfl, seen, hconflict⟩, fun _ => trivial⟩⟩

/-! ## The operations -/

/-- The property: a refusal changes nothing exactly if it is harmless. -/
def Spec (own : Tunnel) (s : Core) (result : Result) (s' : State) : Prop :=
  ∀ e, result = some e → e.Refused → (Unchanged s s'.core ↔ Harmless own e s s'.history)

/-- A conflict. -/
theorem Reconciled.spec {seen : Tunnel → Bool} {e : Failure} (h : Reconciled s s' seen)
    (hhistory : s.history = []) (he : e.conflict = true) : Spec own s.core (some e) s' := by
  rintro _ ⟨⟩ -
  have hfirst : ∀ t, firstLook t s'.history = some (seen t) := by
    intro t
    rw [h.first t, hhistory]
    rfl
  rw [Harmless, if_pos he]
  constructor
  · intro hunchanged t ht
    rw [hfirst t]
    by_contra hseen
    refine h.lost t ht (by simpa using hseen) ?_
    exact (hunchanged.settings t ht).2.2.2.1.trans ht.status
  · intro hall
    refine ⟨h.level, h.bypass, fun t ht => ?_⟩
    have hseen : seen t = true := Option.some.inj ((hfirst t).symm.trans (hall t ht))
    have hkept : s'.core.settings = s.core.settings := h.kept t ht hseen
    rw [hkept]
    exact ⟨rfl, rfl, rfl, rfl, rfl⟩

/-- Another failure is no refusal. -/
theorem Other.spec {e : Failure} {s : Core} (h : Other e) : Spec own s (some e) s' := by
  rintro _ ⟨⟩ he
  exact absurd he h

variable {source label : String} {profileId : Option String} {e : Failure}

/-- The `catch` block of a conflict. -/
theorem follows_connectFailed_conflict (he : e.conflict = true) :
    Follows (.ofEffect (effect i)) (connectFailed source own profileId label e) s
      (fun result s' => result = some e ∧ s' = s) (fun _ _ => True) := by
  cases e <;> try cases he
  · refine follows_bind.mpr (follows_log.mono ?_ fun _ _ _ => trivial)
    rintro _ _ rfl
    exact ⟨rfl, rfl⟩
  · refine follows_bind.mpr (follows_log.mono ?_ fun _ _ _ => trivial)
    rintro _ _ rfl
    exact ⟨rfl, rfl⟩

/-- The `catch` block of everything else: the clean-up. -/
theorem follows_connectFailed (he : e.conflict = false) :
    Follows (.ofEffect (effect i)) (connectFailed source own profileId label e) s
      (fun result s' => result = some e ∧ s'.bypass = [] ∧ s'.settings.vpnStatus = .error ∧
        ∃ x, s'.level = (s.stop own x).level ∧ s'.history = (s.stop own x).history)
      (fun _ _ => True) := by
  have hclean : Follows (.ofEffect (effect i)) (do
      let _ ← perform (.stop own)
      perform .cleanupBypassRouting
      markError own profileId label e.message
      log .error source "connection_failure"
      return some e) s
      (fun result s' => result = some e ∧ s'.bypass = [] ∧ s'.settings.vpnStatus = .error ∧
        ∃ x, s'.level = (s.stop own x).level ∧ s'.history = (s.stop own x).history)
      (fun _ _ => True) := by
    refine follows_bind.mpr ⟨trivial, ?_⟩
    rintro x _ ⟨⟩
    refine follows_bind.mpr ⟨trivial, ?_⟩
    rintro _ _ ⟨⟩
    refine follows_bind.mpr (follows_updateVpnState.mono ?_ fun _ _ _ => trivial)
    rintro _ _ rfl
    refine follows_bind.mpr (follows_log.mono ?_ fun _ _ _ => trivial)
    rintro _ _ rfl
    exact ⟨rfl, rfl, rfl, x, rfl, rfl⟩
  cases e
  case connecting => cases he
  case connected => cases he
  all_goals exact hclean

/-- When a stop command changes nothing. -/
theorem State.stop_level_iff {x : Stopped} (h : s.history = []) :
    (s.stop own x).level = s.level ↔
      s.level own = .down ∨ .stop own false ∈ (s.stop own x).history := by
  rw [State.stop]
  split
  · have hhistory : Event.stop own false ∉ ((s.setLevel own .down).record (.stop own true)).history := by
      simp [State.record, State.setLevel, h]
    rw [or_iff_left hhistory]
    constructor
    · intro hlevel
      rw [← congrFun hlevel own]
      exact if_pos rfl
    · intro hdown
      funext u
      change (if u = own then _ else _) = _
      split
      · next hu => rw [hu, hdown]
      · rfl
  · refine ⟨fun _ => ?_, fun _ => rfl⟩
    by_cases hdown : s.level own = .down
    · exact .inl hdown
    · simp [State.record, h, hdown]

/-- The clean-up after a lookup. -/
theorem spec_of_cleanUp {x : Stopped} (hhistory : s.history = []) (he : e.conflict = false)
    (hbypass : s'.bypass = []) (hstatus : s'.settings.vpnStatus = .error)
    (hlevel : s'.level = (s.stop own x).level) (hstops : s'.history = (s.stop own x).history) :
    Spec own s.core (some e) s' := by
  rintro _ ⟨⟩ -
  have hstop : (s.stop own x).level = s.level ↔
      s.level own = .down ∨ .stop own false ∈ (s.stop own x).history :=
    State.stop_level_iff hhistory
  rw [Harmless, if_neg (by rw [he]; decide), hstops]
  constructor
  · intro h
    refine ⟨fun t ht => ?_, h.bypass.symm.trans hbypass, hstop.mp (hlevel.symm.trans h.level)⟩
    have hboth := (hstatus.symm.trans (h.settings t ht).2.2.2.1).trans ht.status
    cases hboth
  · rintro ⟨hnone, hempty, hdown⟩
    exact ⟨hlevel.trans (hstop.mpr hdown), hbypass.trans hempty.symm,
      fun t ht => absurd ht (hnone t)⟩

/-- A refusal by the lookup. -/
theorem follows_connectFailed_spec (hhistory : s.history = []) (he : e.conflict = false) :
    Follows (.ofEffect (effect i)) (connectFailed source own profileId label e) s
      (Spec own s.core) (fun _ _ => True) := by
  refine (follows_connectFailed he).mono ?_ fun _ _ _ => trivial
  rintro _ s' ⟨rfl, hbypass, hstatus, x, hlevel, hstops⟩
  exact spec_of_cleanUp hhistory he hbypass hstatus hlevel hstops

variable {establish : Option IpInfo → Op (String × Option String)}

/-- What `bringUp` does after the check. -/
theorem throws_bringUp (h : ∀ baseline, Throws Other (establish baseline)) : Throws Other (do
    log .info source "connecting"
    let baseline ← prepareForConnection
    updateVpnState (connectingPatch own profileId label)
    let seen ← establish baseline
    let now ← perform .now
    updateVpnState (connectedPatch now seen.1 seen.2)
    log .info source "connected") :=
  .bind throws_log fun _ => .bind throws_prepareForConnection fun baseline =>
    .bind throws_updateVpnState fun _ => .bind (h baseline) fun _ => .bind .perform fun _ =>
      .bind throws_updateVpnState fun _ => throws_log

/-- After the lookup. -/
theorem follows_connectTunnel (hhistory : s.history = [])
    (h : ∀ baseline, Throws Other (establish baseline)) :
    Follows (.ofEffect (effect i)) (connectTunnel source own profileId label establish) s
      (Spec own s.core) (fun _ _ => True) := by
  have hbringUp : Follows (.ofEffect (effect i)) (bringUp source own profileId label establish) s
      (fun _ _ => True)
      (fun e s' => Other e ∨ e.conflict = true ∧ ∃ seen, Reconciled s s' seen) := by
    refine follows_bind.mpr (follows_assertCanStartConnection.mono ?_ fun _ _ he => he)
    rintro _ s₁ -
    refine ((throws_bringUp h).follows fun _ _ => trivial).mono (fun _ _ _ => trivial) ?_
    exact fun _ _ he => .inl he
  refine follows_bind.mpr (follows_attempt.mpr (hbringUp.mono ?_ ?_))
  · rintro _ s₁ -
    rintro _ ⟨⟩
  · rintro e s₁ (hother | ⟨hconflict, seen, hreconciled⟩)
    · have hnot : e.conflict = false := by
        by_contra hc
        exact hother (.inl (by simpa using hc))
      refine (follows_connectFailed hnot).mono ?_ fun _ _ _ => trivial
      rintro _ s₂ ⟨rfl, -⟩
      exact hother.spec
    · refine (follows_connectFailed_conflict hconflict).mono ?_ fun _ _ _ => trivial
      rintro _ _ ⟨rfl, rfl⟩
      exact hreconciled.spec hhistory hconflict

/-- The lock is not part of the property. -/
theorem follows_locked_spec {m : Op Result}
    (h : ∀ s₀ : State, s₀.core = s.core → s₀.history = [] →
      Follows (.ofEffect (effect i)) m s₀ (Spec own s.core) (fun _ _ => True)) :
    Follows (.ofEffect (effect i)) (locked m) s.begin (Spec own s.core) (fun _ _ => True) := by
  refine follows_bind.mpr (follows_bind.mpr ⟨trivial, ?_⟩)
  intro _ s₁ h₁
  have hcore : s₁.core = s.core ∧ s₁.history = [] := by
    change (if _ then _ else _) = some s₁ at h₁
    split at h₁ <;> obtain rfl := Option.some.inj h₁ <;> exact ⟨rfl, rfl⟩
  refine ⟨trivial, ?_⟩
  intro _ s₂ h₂
  change (if _ then _ else _) = some s₂ at h₂
  split at h₂
  · obtain rfl := Option.some.inj h₂
    refine follows_finallyDo.mpr ((h s₁ hcore.1 hcore.2).mono ?_ ?_)
    · refine fun result s₃ hspec => ⟨trivial, ?_⟩
      rintro _ _ ⟨⟩
      exact hspec
    · refine fun _ _ _ => ⟨trivial, ?_⟩
      rintro _ _ ⟨⟩
      trivial
  · cases h₂

theorem follows_requireProfile {kind : String} {found : Except String (Option Profile)} :
    Follows (.ofEffect (effect i)) (requireProfile kind found) s (fun _ s' => s' = s)
      (fun e s' => s' = s ∧ e.conflict = false) := by
  refine follows_bind.mpr (follows_orThrow.mpr ⟨fun profile _ => ?_, fun _ _ => ⟨rfl, rfl⟩⟩)
  split
  · exact ⟨rfl, rfl⟩
  · exact follows_ite.mpr ⟨fun _ => ⟨rfl, rfl⟩, fun _ => rfl⟩

theorem follows_requireServer {serverId : String} :
    Follows (.ofEffect (effect i)) (requireServer serverId) s (fun _ s' => s' = s)
      (fun e s' => s' = s ∧ e.conflict = false) := by
  refine follows_bind.mpr ⟨trivial, ?_⟩
  rintro found _ ⟨⟩
  refine follows_bind.mpr (follows_orThrow.mpr ⟨fun server _ => ?_, fun _ _ => ⟨rfl, rfl⟩⟩)
  split
  · exact ⟨rfl, rfl⟩
  · exact rfl

/-- Every connect operation has the property. -/
theorem follows_connect {r : Request} (hr : r.target = some own) :
    Follows (.ofEffect (effect i)) (r.program rounds) s.begin (Spec own s.core)
      (fun _ _ => True) := by
  cases r with
  | connectWireguard profileId =>
    obtain rfl := Option.some.inj hr
    refine follows_locked_spec fun s₀ hcore hhistory => follows_bind.mpr ⟨trivial, ?_⟩
    rintro found _ ⟨⟩
    rw [← hcore]
    refine follows_bind.mpr (follows_attempt.mpr (follows_requireProfile.mono ?_ ?_))
    · rintro profile _ rfl
      exact follows_connectTunnel hhistory fun _ => throws_establishWireguard
    · rintro e _ ⟨rfl, he⟩
      exact follows_connectFailed_spec hhistory he
  | connectOpenvpn profileId =>
    obtain rfl := Option.some.inj hr
    refine follows_locked_spec fun s₀ hcore hhistory => follows_bind.mpr ⟨trivial, ?_⟩
    rintro found _ ⟨⟩
    rw [← hcore]
    refine follows_bind.mpr (follows_attempt.mpr (follows_requireProfile.mono ?_ ?_))
    · rintro profile _ rfl
      exact follows_connectTunnel hhistory fun _ => throws_establishOpenvpn
    · rintro e _ ⟨rfl, he⟩
      exact follows_connectFailed_spec hhistory he
  | connectVpnGateServer serverId =>
    obtain rfl := Option.some.inj hr
    refine follows_locked_spec fun s₀ hcore hhistory => ?_
    rw [← hcore]
    refine follows_bind.mpr (follows_attempt.mpr (follows_requireServer.mono ?_ ?_))
    · rintro server _ rfl
      refine follows_bind.mpr ⟨trivial, ?_⟩
      rintro (message | _) _ ⟨⟩
      · exact follows_connectFailed_spec hhistory rfl
      · exact follows_connectTunnel hhistory fun _ => throws_establishOpenvpn
    · rintro e _ ⟨rfl, he⟩
      exact follows_connectFailed_spec hhistory he
  | connectWarp =>
    obtain rfl := Option.some.inj hr
    refine follows_locked_spec fun s₀ hcore hhistory => ?_
    rw [← hcore]
    exact follows_connectTunnel hhistory fun _ => throws_establishWarp
  | _ => cases hr

/-! ## The result -/

/-- **A refusal.** A connect operation that is refused changes nothing exactly if the refusal is
harmless. -/
theorem refused_changes_nothing {r : Request} {e : Failure} (hr : r.target = some own)
    (hrun : Runs (effect i) (r.program rounds) s.begin (.ok (some e)) s') (he : e.Refused) :
    Unchanged s.core s'.core ↔ Harmless own e s.core s'.history :=
  ((follows_connect hr).of_runs hrun).1 _ rfl e rfl he

/-- WireGuard is connected. -/
def wireguardConnected : State where
  level := fun t => if t = .wireguard then .up else .down
  bypass := ["default"]
  settings := ⟨some .wireguard, some "home", some "Home", .connected, none, some "now", none, none⟩
  holder := none
  queue := []
  history := []

/-- A test for the way an operation ends. -/
def failsWith (p : Failure → Bool) : Except Failure Result → Bool
  | .ok (some e) => p e
  | _ => false

theorem failsWith_iff {p : Failure → Bool} {r : Except Failure Result} (h : failsWith p r = true) :
    ∃ e, r = .ok (some e) ∧ p e = true := by
  cases r with
  | error e => cases h
  | ok result =>
    cases result with
    | none => cases h
    | some e => exact ⟨e, rfl, h⟩

/-- A second connect is refused and changes nothing. -/
theorem refused_changes_nothing_connected :
    ∃ s' e, Runs (effect 0) ((Request.connectOpenvpn "office").program 1)
      wireguardConnected.begin (.ok (some e)) s' ∧ e.conflict = true ∧
      Unchanged wireguardConnected.core s'.core := by
  have h : (((Request.connectOpenvpn "office").program 1).runWith (effect 0) truthful
      wireguardConnected.begin).map (fun x => (firstLook .wireguard x.2.history,
        failsWith Failure.conflict x.1)) = some (some true, true) := by
    decide +kernel
  obtain ⟨⟨r, s'⟩, hrun, hobs⟩ := Option.map_eq_some_iff.mp h
  obtain ⟨hlook, hresult⟩ := Prod.mk.inj hobs
  obtain ⟨e, rfl, he⟩ := failsWith_iff hresult
  have hruns := Runs.of_runWith hrun
  refine ⟨s', e, hruns, he, (refused_changes_nothing rfl hruns (.inl he)).mpr ?_⟩
  rw [Harmless, if_pos he]
  intro t ht
  obtain rfl : Tunnel.wireguard = t := ht.only .wireguard rfl
  exact hlook

/-! ## An unknown profile -/

/-- The answers when there is no profile. -/
def withoutProfiles (s : State) : (c : Cmd) → c.Answer
  | .wireguardProfile _ => .ok none
  | c => truthful s c

/-- The connection is lost because another profile, which does not exist, was asked for. -/
theorem unknown_profile_disconnects :
    ∃ s' e, Runs (effect 0) ((Request.connectWireguard "gone").program 1)
      wireguardConnected.begin (.ok (some e)) s' ∧ e.lookup = true ∧
      wireguardConnected.core.Established .wireguard ∧ s'.level .wireguard = .down ∧
      s'.bypass = [] ∧ s'.settings.vpnStatus = .error ∧
      ¬Unchanged wireguardConnected.core s'.core := by
  have h : (((Request.connectWireguard "gone").program 1).runWith (effect 0) withoutProfiles
      wireguardConnected.begin).map (fun x => (failsWith Failure.lookup x.1,
        x.2.level .wireguard, x.2.bypass, x.2.settings.vpnStatus)) =
      some (true, .down, [], .error) := by
    decide +kernel
  obtain ⟨⟨r, s'⟩, hrun, hobs⟩ := Option.map_eq_some_iff.mp h
  obtain ⟨hresult, hobs⟩ := Prod.mk.inj hobs
  obtain ⟨hlevel, hobs⟩ := Prod.mk.inj hobs
  obtain ⟨hbypass, hstatus⟩ := Prod.mk.inj hobs
  obtain ⟨e, rfl, he⟩ := failsWith_iff hresult
  have hestablished : wireguardConnected.core.Established .wireguard := by
    refine ⟨rfl, rfl, rfl, fun u hu => ?_⟩
    by_contra hne
    exact absurd ((if_neg hne).symm.trans hu) (by decide)
  refine ⟨s', e, Runs.of_runWith hrun, he, hestablished, hlevel, hbypass, hstatus, fun hsame => ?_⟩
  have hlost := (congrFun hsame.level .wireguard).symm.trans hlevel
  cases hlost

end IptvProxy.Vpn
