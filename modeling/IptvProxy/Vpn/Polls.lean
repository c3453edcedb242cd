import IptvProxy.Vpn.OneTunnel

/-!
# Status polls beside the operations

A poll reads the stored state, looks at the tunnels and may store a correction, all without the
lock. `outcome_stands` says when the outcome of an operation stays: when no poll stores a correction
that rests on settings it has read before an operation got the lock, or while one had it, and the
looks of the polls are right. Then a poll that finds the tunnel of the operation finds it in the
settings too, and stores nothing. `poll_undoes_disconnect` is a poll that started before a
disconnect and corrects it.

A run is watched: `last` is the operation that had the lock last, and what it has stored since, and
`fresh` are the polls whose settings are from after it.
-/

namespace IptvProxy.Vpn

open Agents Effect Transition

/-! ## What an operation stores -/

/-- What an operation has stored since it has the lock. -/
inductive Stored where
  /-- nothing that stands, or an error -/
  | nothing
  /-- that it is connecting -/
  | connecting
  /-- its outcome -/
  | outcome
  deriving DecidableEq

/-- After another patch. The check before a connection may store a correction. -/
def Stored.next (g : Stored) (patch : Settings → Settings) : Stored :=
  match (patch initialSettings).vpnStatus with
  | .connecting => .connecting
  | .connected => if g = .connecting then .outcome else .nothing
  | .off => .outcome
  | .error => .nothing

/-- `vpn_status`, `active_vpn_type` and `active_vpn_profile_id` -/
def Settings.stored (s : Settings) : VpnStatus × Option Tunnel × Option String :=
  (s.vpnStatus, s.activeVpnType, s.activeVpnProfileId)

/-- The profile that an operation stores. -/
def Request.profile : Request → Option String
  | connectWireguard profileId => some profileId
  | connectOpenvpn profileId => some profileId
  | connectVpnGateServer serverId => some s!"vpngate:{serverId}"
  | _ => none

/-- The status, type and profile of an operation. -/
def Request.expected (r : Request) : Stored → VpnStatus × Option Tunnel × Option String
  | .outcome => (if r.target = none then .off else .connected, r.target, r.profile)
  | _ => (.connecting, r.target, r.profile)

theorem Request.expected_connecting (r : Request) :
    r.expected .connecting = (.connecting, r.target, r.profile) := rfl

theorem Request.expected_outcome (r : Request) : r.expected .outcome =
    (if r.target = none then .off else .connected, r.target, r.profile) := rfl

/-- Where an operation is. -/
inductive Progress where
  /-- before it has the lock -/
  | outside
  /-- with the lock -/
  | inside (g : Stored)
  /-- after it -/
  | after (g : Stored)
  deriving DecidableEq

/-- The progress after an answer. -/
def Progress.next (p : Progress) : (c : Cmd) → c.Answer → Progress
  | .wait, _ => .inside .nothing
  | .leave, _ =>
    match p with
    | .inside g => .after g
    | _ => p
  | .updateVpnState patch, x =>
    match p, x with
    | .inside g, .ok _ => .inside (g.next patch)
    | _, _ => p
  | _, _ => p

/-- What is stored is what is expected. -/
def Writes (r : Request) (g : Stored) (patch : Settings → Settings) : Prop :=
  (g.next patch = .connecting → ∀ s, (patch s).stored = r.expected .connecting) ∧
  (g.next patch = .outcome → ∀ s, (g = .connecting → s.stored = r.expected .connecting) →
    (patch s).stored = r.expected .outcome)

/-- Which commands an operation issues where. -/
def Progress.allows (r : Request) (p : Progress) : Cmd → Prop
  | .wait => p = .outside
  | .leave => ∃ g, p = .inside g
  | .updateVpnState patch => ∃ g, p = .inside g ∧ Writes r g patch
  | _ => ∀ g, p ≠ .after g

/-- The progress of request `r`. -/
def progress (r : Request) : Protocol Cmd Cmd.Answer Progress :=
  ⟨Progress.allows r, fun p c x => some (p.next c x)⟩

/-- An operation under the lock. -/
def Request.operation (r : Request) : Prop := r.target ≠ none ∨ r = .disconnect

/-! ## Programs that store nothing -/

/-- Commands that neither store anything nor deal with the lock. -/
def Cmd.calm : Cmd → Bool
  | .enter => false
  | .wait => false
  | .leave => false
  | .updateVpnState _ => false
  | _ => true

/-- A program of such commands. -/
def Calm {α : Type} (m : Op α) : Prop :=
  Within (⟨fun _ c => c.calm = true, fun p _ _ => some p⟩ : Protocol Cmd Cmd.Answer Unit)
    (fun _ => True) m

section Calm

variable {α β : Type} {m : Op α} {r : Request} {g : Stored} {rounds : ℕ}

/-- Under the lock such a program changes nothing in the progress. -/
theorem Calm.follows (h : Calm m) {Q : α → Progress → Prop} {R : Failure → Progress → Prop}
    (hQ : ∀ a, Q a (.inside g)) (hR : ∀ e, R e (.inside g)) :
    Follows (progress r) m (.inside g) Q R := by
  have hm := h () trivial
  clear h
  induction m with
  | pure a => exact hQ a
  | throw e => exact hR e
  | call c k ih =>
    obtain ⟨hcalm, hrest⟩ := hm
    refine ⟨?_, fun x q hq => ?_⟩
    · cases c with
      | enter => cases hcalm
      | wait => cases hcalm
      | leave => cases hcalm
      | updateVpnState patch => cases hcalm
      | _ => exact fun g h => by cases h
    · have hsame : (Progress.inside g).next c x = .inside g := by
        cases c with
        | enter => cases hcalm
        | wait => cases hcalm
        | leave => cases hcalm
        | updateVpnState patch => cases hcalm
        | _ => rfl
      obtain rfl := Option.some.inj hq
      rw [hsame]
      exact ih x (hrest x () rfl)

theorem calm_perform {c : Cmd} (h : c.calm = true) : Calm (perform c) :=
  .perform (fun _ _ => h) fun _ _ _ _ _ => trivial

theorem Calm.bind {f : α → Op β} (h : Calm m) (hf : ∀ a, Calm (f a)) : Calm (m >>= f) :=
  Within.bind h hf

theorem Calm.attempt (h : Calm m) : Calm m.attempt := Within.attempt h

theorem calm_orThrow {x : Except String α} : Calm (orThrow x) := by
  cases x
  · exact .throw
  · exact .pure

theorem calm_orFail {x : Option String} : Calm (orFail x) := by
  cases x
  · exact .pure
  · exact .throw

theorem calm_log {level : LogLevel} {source category : String} :
    Calm (log level source category) := (calm_perform rfl).bind fun _ => calm_orThrow

theorem calm_getSettings : Calm getSettings := (calm_perform rfl).bind fun _ => calm_orThrow

theorem calm_getRuntimeTunnels : Calm getRuntimeTunnels := by
  have hothers : ∀ first, Calm (lookAtOthers first) := by
    rintro (_ | _)
    · exact (calm_perform rfl).bind fun _ => (calm_perform rfl).bind fun _ => .pure
    · exact (calm_perform rfl).bind fun _ => (calm_perform rfl).bind fun _ => .pure
  exact (calm_perform rfl).bind fun _ => (calm_perform rfl).bind fun first =>
    (hothers first).bind fun _ => .pure

theorem calm_stopAllTunnels : Calm stopAllTunnels :=
  (calm_perform rfl).bind fun _ => (calm_perform rfl).bind fun _ =>
    (calm_perform rfl).bind fun _ => .pure

theorem calm_prepareForConnection : Calm prepareForConnection := by
  have hinstall : Calm installBypassRouting :=
    (calm_perform rfl).bind fun _ => (calm_perform rfl).bind fun _ =>
      calm_orFail.bind fun _ => calm_log
  have hprepare : Calm prepareBypassRouting := by
    refine hinstall.attempt.bind fun result => ?_
    split
    · exact .pure
    · exact calm_log.bind fun _ => .throw
  exact calm_stopAllTunnels.bind fun _ => (calm_perform rfl).bind fun _ =>
    (calm_perform rfl).bind fun _ => hprepare.bind fun _ => .pure

theorem calm_startWireguard : Calm startWireguard := by
  have hconfigure : Calm configureWireguard :=
    (calm_perform rfl).bind fun _ => (calm_perform rfl).bind fun _ =>
      calm_orThrow.bind fun _ => (calm_perform rfl).bind fun _ => calm_orFail.bind fun _ =>
        (calm_perform rfl).bind fun _ => calm_orThrow.bind fun _ => calm_log
  refine hconfigure.attempt.bind fun result => ?_
  split
  · exact .pure
  · exact (calm_perform rfl).bind fun _ => .pure

theorem calm_startOpenvpn : Calm (startOpenvpn rounds) := by
  have hawait : ∀ rounds, Calm (awaitOpenvpn rounds) := by
    intro rounds
    induction rounds with
    | zero => exact .pure
    | succ rounds ih =>
      refine (calm_perform rfl).bind fun _ => ?_
      split
      · exact .pure
      · exact .pure
      · exact ih
  refine (calm_perform rfl).bind fun spawned => ?_
  split
  · exact .pure
  · exact hawait rounds

theorem calm_requireDaemon {message : String} : Calm (requireDaemon message) :=
  (calm_perform rfl).bind fun _ => .ite .pure .throw

theorem calm_register : Calm register := by
  have hcreate : Calm createRegistration :=
    (calm_perform rfl).bind fun _ => calm_orThrow.bind fun _ =>
      (calm_perform rfl).bind fun _ => calm_log
  refine calm_requireDaemon.bind fun _ => (calm_perform rfl).bind fun _ => .ite .pure ?_
  refine hcreate.attempt.bind fun result => ?_
  split
  · exact .pure
  · exact calm_log.bind fun _ => .throw

theorem calm_startWarp : Calm (startWarp rounds) := by
  have hawait : ∀ rounds, Calm (awaitWarp rounds) := by
    intro rounds
    induction rounds with
    | zero => exact .throw
    | succ rounds ih => exact (calm_perform rfl).bind fun _ => .ite .pure ih
  have hregistered : Calm ensureRegistered := (calm_perform rfl).bind fun _ => .ite .pure calm_register
  have hconnect : Calm (connectWarpClient rounds) :=
    calm_requireDaemon.bind fun _ => hregistered.bind fun _ => (calm_perform rfl).bind fun _ =>
      (calm_perform rfl).bind fun _ => calm_orFail.bind fun _ => hawait rounds
  refine hconnect.attempt.bind fun result => ?_
  split
  · exact .pure
  · exact .pure

theorem calm_establishWireguard {baseline : Option IpInfo} :
    Calm (establishWireguard rounds baseline) := by
  have hverify : ∀ rounds ipInfo handshake,
      Calm (verifyWireguard baseline rounds ipInfo handshake) := by
    intro rounds
    induction rounds with
    | zero => exact fun _ _ => .pure
    | succ rounds ih =>
      exact fun _ _ => (calm_perform rfl).bind fun _ => (calm_perform rfl).bind fun _ =>
        .ite .pure (ih _ _)
  refine calm_startWireguard.bind fun _ => calm_orFail.bind fun _ => (hverify _ _ _).bind fun _ => ?_
  refine (calm_perform rfl).bind fun _ => .ite .throw ?_
  split
  · exact .throw
  · exact .ite .throw .pure

theorem calm_establishOpenvpn {gone unverified : String} {fallback : Option String} :
    Calm (establishOpenvpn rounds gone unverified fallback) := by
  refine calm_startOpenvpn.bind fun _ => calm_orFail.bind fun _ => ?_
  refine (calm_perform rfl).bind fun _ => .ite .throw ((calm_perform rfl).bind fun seen => ?_)
  split
  · exact .throw
  · exact .pure

theorem calm_establishWarp : Calm (establishWarp rounds) := by
  refine calm_startWarp.bind fun _ => calm_orFail.bind fun _ => ?_
  refine (calm_perform rfl).bind fun _ => .ite .throw ((calm_perform rfl).bind fun seen => ?_)
  split
  · exact .throw
  · exact .pure

theorem calm_requireProfile {kind : String} {found : Except String (Option Profile)} :
    Calm (requireProfile kind found) := by
  refine calm_orThrow.bind fun profile => ?_
  split
  · exact .throw
  · exact .ite .throw .pure

theorem calm_requireServer {serverId : String} : Calm (requireServer serverId) := by
  refine (calm_perform rfl).bind fun _ => calm_orThrow.bind fun server => ?_
  split
  · exact .throw
  · exact .pure

end Calm

/-! ## The operations -/

section Operations

variable {r : Request} {own : Tunnel} {profileId : Option String} {source label : String}
  {g : Stored} {establish : Option IpInfo → Op (String × Option String)}

/-- A patch is stored, or it fails. -/
theorem progress_store {patch : Settings → Settings} (h : Writes r g patch)
    {Q : Unit → Progress → Prop} {R : Failure → Progress → Prop}
    (hQ : Q () (.inside (g.next patch))) (hR : ∀ e, R e (.inside g)) :
    Follows (progress r) (updateVpnState patch) (.inside g) Q R := by
  refine ⟨⟨g, rfl, h⟩, fun x q hq => ?_⟩
  obtain rfl := Option.some.inj hq
  rcases x with message | _
  · exact hR _
  · exact hQ

/-- A patch that says neither that a connection is on its way nor what the outcome is. -/
theorem writes_of_nothing {patch : Settings → Settings} (h : g.next patch = .nothing) :
    Writes r g patch := by
  rw [Writes, h]
  exact ⟨(fun h => by cases h), fun h => by cases h⟩

/-- The lock is held, and nothing stands. -/
def Fresh (p : Progress) : Prop := p = .inside .nothing

theorem progress_correct {patch : Settings → Settings} (h : Stored.nothing.next patch = .nothing) :
    Follows (progress r) (do
      updateVpnState patch
      log .warn "vpn" "reconcile"
      getSettings) (.inside .nothing) (fun _ => Fresh) (fun _ => Fresh) := by
  refine follows_bind.mpr (progress_store (writes_of_nothing h) ?_ fun _ => rfl)
  rw [h]
  exact (calm_log.bind fun _ => calm_getSettings).follows (fun _ => rfl) fun _ => rfl

theorem progress_assertCanStartConnection :
    Follows (progress r) assertCanStartConnection (.inside .nothing) (fun _ => Fresh)
      (fun _ => Fresh) := by
  have hreconcile : Follows (progress r) reconcileRuntimeState (.inside .nothing) (fun _ => Fresh)
      (fun _ => Fresh) := by
    refine follows_bind.mpr (calm_getSettings.follows (fun current => ?_) fun _ => rfl)
    refine follows_bind.mpr (calm_getRuntimeTunnels.follows (fun runtime => ?_) fun _ => rfl)
    split
    · exact follows_ite.mpr ⟨fun _ => progress_correct rfl, fun _ => rfl⟩
    · refine follows_ite.mpr ⟨fun _ => ?_, fun _ => rfl⟩
      refine follows_bind.mpr ((calm_perform rfl).follows (fun ipInfo => ?_) fun _ => rfl)
      refine follows_bind.mpr ((calm_perform rfl).follows (fun now => ?_) fun _ => rfl)
      exact progress_correct rfl
    · exact progress_correct rfl
  refine follows_bind.mpr (hreconcile.mono (fun current q hq => ?_) fun _ _ hq => hq)
  obtain rfl := hq
  refine follows_bind.mpr (calm_getRuntimeTunnels.follows (fun runtime => ?_) fun _ => rfl)
  exact follows_ite.mpr ⟨fun _ => rfl, fun _ => follows_ite.mpr ⟨fun _ => rfl, fun _ => rfl⟩⟩

/-- With the lock. -/
def Inside (p : Progress) : Prop := ∃ g, p = .inside g

/-- With the lock; a success has stored its outcome. -/
def Concluded (result : Result) (p : Progress) : Prop :=
  Inside p ∧ (result = none → p = .inside .outcome)

theorem progress_connectFailed {e : Failure} :
    Follows (progress r) (connectFailed source own profileId label e) (.inside g) Concluded
      (fun _ => Inside) := by
  have hfailed : ∀ e : Failure, Follows (progress r) (do
      let _ ← perform (.stop own)
      perform .cleanupBypassRouting
      markError own profileId label e.message
      log .error source "connection_failure"
      return some e) (.inside g) Concluded (fun _ => Inside) := by
    intro e
    refine follows_bind.mpr ((calm_perform rfl).follows (fun _ => ?_) fun _ => ⟨g, rfl⟩)
    refine follows_bind.mpr ((calm_perform rfl).follows (fun _ => ?_) fun _ => ⟨g, rfl⟩)
    refine follows_bind.mpr (progress_store (writes_of_nothing rfl) ?_ fun _ => ⟨g, rfl⟩)
    refine follows_bind.mpr (calm_log.follows (fun _ => ?_) fun _ => ⟨_, rfl⟩)
    exact ⟨⟨_, rfl⟩, fun h => by cases h⟩
  cases e with
  | connecting =>
    refine follows_bind.mpr (calm_log.follows (fun _ => ?_) fun _ => ⟨g, rfl⟩)
    exact ⟨⟨g, rfl⟩, fun h => by cases h⟩
  | connected blocking =>
    refine follows_bind.mpr (calm_log.follows (fun _ => ?_) fun _ => ⟨g, rfl⟩)
    exact ⟨⟨g, rfl⟩, fun h => by cases h⟩
  | notFound message => exact hfailed _
  | disabled message => exact hfailed _
  | other message => exact hfailed _

/-- **A connect operation** stores that it is connecting, and then its outcome. -/
theorem progress_connectTunnel (hown : r.target = some own) (hprofile : r.profile = profileId)
    (h : ∀ baseline, Calm (establish baseline)) :
    Follows (progress r) (connectTunnel source own profileId label establish) (.inside .nothing)
      Concluded (fun _ => Inside) := by
  have hconnecting : ∀ s, (connectingPatch own profileId label s).stored =
      r.expected .connecting := by
    intro s
    rw [Request.expected_connecting, hown, hprofile]
    rfl
  have hbringUp : Follows (progress r) (bringUp source own profileId label establish)
      (.inside .nothing) (fun _ q => q = .inside .outcome) (fun _ => Inside) := by
    refine follows_bind.mpr (progress_assertCanStartConnection.mono (fun _ q hq => ?_)
      fun _ _ hq => ⟨_, hq⟩)
    obtain rfl := hq
    refine follows_bind.mpr (calm_log.follows (fun _ => ?_) fun _ => ⟨_, rfl⟩)
    refine follows_bind.mpr (calm_prepareForConnection.follows (fun baseline => ?_)
      fun _ => ⟨_, rfl⟩)
    refine follows_bind.mpr (progress_store ⟨fun _ => hconnecting, (fun h => by cases h)⟩ ?_
      fun _ => ⟨_, rfl⟩)
    refine follows_bind.mpr ((h baseline).follows (fun seen => ?_) fun _ => ⟨_, rfl⟩)
    refine follows_bind.mpr ((calm_perform rfl).follows (fun now => ?_) fun _ => ⟨_, rfl⟩)
    have hwrites : Writes r .connecting (connectedPatch now seen.1 seen.2) := by
      refine ⟨(fun h => by cases h), fun _ s hs => ?_⟩
      have hs := hs rfl
      rw [Settings.stored, Request.expected_connecting, Prod.mk.injEq, Prod.mk.injEq] at hs
      rw [Request.expected_outcome, hown]
      simp only [Settings.stored, connectedPatch, hs.2.1, hs.2.2, hown]
      rfl
    refine follows_bind.mpr (progress_store hwrites ?_ fun _ => ⟨_, rfl⟩)
    exact calm_log.follows (fun _ => rfl) fun _ => ⟨_, rfl⟩
  refine follows_bind.mpr (follows_attempt.mpr (hbringUp.mono (fun _ q hq => ?_) fun e q hq => ?_))
  · obtain rfl := hq
    exact ⟨⟨_, rfl⟩, fun _ => rfl⟩
  · obtain ⟨g, rfl⟩ := hq
    exact progress_connectFailed

/-- Without the lock again; a success has stored its outcome. -/
def Over (result : Result) (p : Progress) : Prop :=
  ∃ g, p = .after g ∧ (result = none → g = .outcome)

theorem follows_locked_progress {m : Op Result}
    (h : Follows (progress r) m (.inside .nothing) Concluded (fun _ => Inside)) :
    Follows (progress r) (locked m) .outside Over (fun _ p => ∃ g, p = .after g) := by
  refine follows_bind.mpr (follows_bind.mpr ⟨fun _ h => (by cases h), fun _ q hq => ?_⟩)
  obtain rfl := Option.some.inj hq
  refine ⟨rfl, fun _ q hq => ?_⟩
  obtain rfl := Option.some.inj hq
  refine follows_finallyDo.mpr (h.mono (fun result q hq => ?_) fun e q hq => ?_)
  · obtain ⟨⟨g, rfl⟩, hnone⟩ := hq
    refine ⟨⟨g, rfl⟩, fun _ q hq => ?_⟩
    obtain rfl := Option.some.inj hq
    exact ⟨g, rfl, fun hresult => by cases hnone hresult; rfl⟩
  · obtain ⟨g, rfl⟩ := hq
    refine ⟨⟨g, rfl⟩, fun _ q hq => ?_⟩
    obtain rfl := Option.some.inj hq
    exact ⟨g, rfl⟩

/-- **The progress of the operations.** -/
theorem operation_progress (hr : r.operation) (rounds : ℕ) :
    Follows (progress r) (r.program rounds) .outside Over (fun _ p => ∃ g, p = .after g) := by
  have hfailed : ∀ {source : String} {own : Tunnel} {profileId : Option String} {label : String}
      {e : Failure}, Follows (progress r) (connectFailed source own profileId label e)
        (.inside .nothing) Concluded (fun _ => Inside) := progress_connectFailed
  cases r with
  | connectWireguard profileId =>
    refine follows_locked_progress (follows_bind.mpr ((calm_perform rfl).follows (fun found => ?_)
      fun _ => ⟨_, rfl⟩))
    refine follows_bind.mpr (calm_requireProfile.attempt.follows (fun result => ?_) fun _ => ⟨_, rfl⟩)
    split
    · exact hfailed
    · exact progress_connectTunnel rfl rfl fun _ => calm_establishWireguard
  | connectOpenvpn profileId =>
    refine follows_locked_progress (follows_bind.mpr ((calm_perform rfl).follows (fun found => ?_)
      fun _ => ⟨_, rfl⟩))
    refine follows_bind.mpr (calm_requireProfile.attempt.follows (fun result => ?_) fun _ => ⟨_, rfl⟩)
    split
    · exact hfailed
    · exact progress_connectTunnel rfl rfl fun _ => calm_establishOpenvpn
  | connectVpnGateServer serverId =>
    refine follows_locked_progress (follows_bind.mpr (calm_requireServer.attempt.follows
      (fun result => ?_) fun _ => ⟨_, rfl⟩))
    split
    · exact hfailed
    · refine follows_bind.mpr ((calm_perform rfl).follows (fun decoded => ?_) fun _ => ⟨_, rfl⟩)
      split
      · exact hfailed
      · exact progress_connectTunnel rfl rfl fun _ => calm_establishOpenvpn
  | connectWarp =>
    exact follows_locked_progress (progress_connectTunnel rfl rfl fun _ => calm_establishWarp)
  | disconnect =>
    have htunnels : Follows (progress .disconnect) disconnectTunnels (.inside .nothing)
        (fun _ q => q = .inside .outcome) (fun _ => Inside) := by
      refine follows_bind.mpr (calm_getSettings.follows (fun current => ?_) fun _ => ⟨_, rfl⟩)
      have hannounce : Calm (announceDisconnect current) := .ite calm_log .pure
      refine follows_bind.mpr (hannounce.follows (fun _ => ?_) fun _ => ⟨_, rfl⟩)
      refine follows_bind.mpr (calm_stopAllTunnels.follows (fun _ => ?_) fun _ => ⟨_, rfl⟩)
      refine follows_bind.mpr ((calm_perform rfl).follows (fun _ => ?_) fun _ => ⟨_, rfl⟩)
      refine follows_bind.mpr (progress_store ⟨fun h => (by cases h), fun _ _ _ => rfl⟩ ?_
        fun _ => ⟨_, rfl⟩)
      exact calm_log.follows (fun _ => rfl) fun _ => ⟨_, rfl⟩
    refine follows_locked_progress (follows_bind.mpr (follows_attempt.mpr
      (htunnels.mono (fun _ q hq => ?_) fun e q hq => ?_)))
    · obtain rfl := hq
      exact ⟨⟨_, rfl⟩, fun _ => rfl⟩
    · obtain ⟨g, rfl⟩ := hq
      refine follows_bind.mpr (calm_log.follows (fun _ => ?_) fun _ => ⟨g, rfl⟩)
      exact ⟨⟨g, rfl⟩, fun h => by cases h⟩
  | register => exact absurd hr (by rintro (h | h); exacts [h rfl, by cases h])
  | rotate => exact absurd hr (by rintro (h | h); exacts [h rfl, by cases h])
  | status => exact absurd hr (by rintro (h | h); exacts [h rfl, by cases h])

/-- After the lock there is nothing more to do. -/
theorem not_call_of_after {m : Op Result} {Q : Result → Progress → Prop}
    {R : Failure → Progress → Prop} (h : Follows (progress r) m (.after g) Q R) :
    ¬∃ c k, m = .call c k := by
  rintro ⟨c, k, rfl⟩
  obtain ⟨hallowed, -⟩ := h
  cases c with
  | wait => cases hallowed
  | leave => obtain ⟨g', hg'⟩ := hallowed; cases hg'
  | updateVpnState patch => obtain ⟨g', hg', -⟩ := hallowed; cases hg'
  | _ => exact hallowed g rfl

end Operations

/-! ## The polls -/

/-- What a poll knows. -/
inductive Knowledge where
  /-- nothing yet -/
  | nothing
  /-- the settings, and what it has seen of the tunnels since -/
  | read (current : Settings) (looks : Tunnel → Option Bool)
  /-- it has stored a correction -/
  | corrected

/-- After a look. -/
def Knowledge.look (k : Knowledge) (t : Tunnel) (seen : Bool) : Knowledge :=
  match k with
  | .read current looks => .read current (Function.update looks t (some seen))
  | _ => k

/-- The knowledge after an answer. -/
def Knowledge.next (k : Knowledge) : (c : Cmd) → c.Answer → Knowledge
  | .getSettings, .ok settings =>
    match k with
    | .nothing => .read settings fun _ => none
    | _ => k
  | .isConnectionActive t, seen => k.look t seen
  | .warpStatus, status => k.look .warp status.connected
  | .updateVpnState _, _ => .corrected
  | _, _ => k

/-- A poll has something to correct. -/
def Mismatch (current : Settings) : List Tunnel → Prop
  | [] => current.vpnStatus = .connected
  | [actual] => current.vpnStatus ≠ .connected ∨ current.activeVpnType ≠ some actual
  | _ => True

/-- Which commands a poll issues when. -/
def Knowledge.allows (k : Knowledge) : Cmd → Prop
  | .enter => False
  | .wait => False
  | .leave => False
  | .getSettings => ∀ current looks, k ≠ .read current looks
  | .updateVpnState _ => ∃ current looks wireguard openvpn warp, k = .read current looks ∧
    looks .wireguard = some wireguard ∧ looks .openvpn = some openvpn ∧ looks .warp = some warp ∧
      Mismatch current (activeTunnels wireguard openvpn warp)
  | _ => True

/-- The knowledge of a poll. -/
def knowledge : Protocol Cmd Cmd.Answer Knowledge :=
  ⟨Knowledge.allows, fun k c x => some (k.next c x)⟩

section Polls

variable {k : Knowledge}

theorem knows_perform {c : Cmd} {Q : c.Answer → Knowledge → Prop} {R : Failure → Knowledge → Prop}
    (h : k.allows c) (hQ : ∀ x, Q x (k.next c x)) : Follows knowledge (perform c) k Q R := by
  refine ⟨h, fun x q hq => ?_⟩
  obtain rfl := Option.some.inj hq
  exact hQ x

/-- Nothing is said of the end. -/
def Whatever {α : Type} (_ : α) (_ : Knowledge) : Prop := True

theorem knows_orThrow {α : Type} {x : Except String α} {Q : α → Knowledge → Prop}
    (hQ : ∀ a, Q a k) : Follows knowledge (orThrow x) k Q Whatever := by
  cases x with
  | error message => trivial
  | ok a => exact hQ a

theorem knows_log {level : LogLevel} {source category : String} :
    Follows knowledge (log level source category) k (fun _ q => q = k) Whatever :=
  follows_bind.mpr (knows_perform trivial fun _ => knows_orThrow fun _ => rfl)

theorem knows_profileName {settings : Settings} :
    Follows knowledge (profileName settings) k Whatever Whatever := by
  unfold profileName
  split
  · trivial
  · exact follows_bind.mpr (knows_perform trivial fun _ => follows_bind.mpr
      (knows_orThrow fun _ => trivial))
  · refine follows_ite.mpr ⟨fun _ => trivial, fun _ => ?_⟩
    exact follows_bind.mpr (knows_perform trivial fun _ => follows_bind.mpr
      (knows_orThrow fun _ => trivial))
  · trivial
  · trivial

/-- The three looks. -/
theorem knows_getRuntimeTunnels {current : Settings} {looks : Tunnel → Option Bool} :
    Follows knowledge getRuntimeTunnels (.read current looks) (fun runtime q =>
      ∃ looks wireguard openvpn warp, q = .read current looks ∧ looks .wireguard = some wireguard ∧
        looks .openvpn = some openvpn ∧ looks .warp = some warp ∧
          runtime = activeTunnels wireguard openvpn warp) Whatever := by
  refine follows_bind.mpr (knows_perform trivial fun openvpn => ?_)
  refine follows_bind.mpr (knows_perform trivial fun schedule => follows_bind.mpr ?_)
  cases schedule with
  | true =>
    refine follows_bind.mpr (knows_perform trivial fun wireguard => ?_)
    refine follows_bind.mpr (knows_perform trivial fun warp => ?_)
    exact ⟨_, wireguard, openvpn, warp.connected, rfl, rfl, rfl, rfl, rfl⟩
  | false =>
    refine follows_bind.mpr (knows_perform trivial fun warp => ?_)
    refine follows_bind.mpr (knows_perform trivial fun wireguard => ?_)
    exact ⟨_, wireguard, openvpn, warp.connected, rfl, rfl, rfl, rfl, rfl⟩

theorem knows_correct {patch : Settings → Settings} (h : k.allows (.updateVpnState patch)) :
    Follows knowledge (do
      updateVpnState patch
      log .warn "vpn" "reconcile"
      getSettings) k Whatever Whatever := by
  refine follows_bind.mpr (follows_bind.mpr (knows_perform h fun _ => knows_orThrow fun _ => ?_))
  refine follows_bind.mpr (knows_log.mono (fun _ q hq => ?_) fun _ _ _ => trivial)
  obtain rfl := hq
  exact follows_bind.mpr (knows_perform (fun _ _ h => by cases h) fun _ =>
    knows_orThrow fun _ => trivial)

/-- **A poll** stores a correction only for what it has read and seen. -/
theorem knows_status (rounds : ℕ) :
    Follows knowledge (Request.status.program rounds) .nothing Whatever Whatever := by
  have hreconcile : Follows knowledge reconcileRuntimeState .nothing Whatever Whatever := by
    refine follows_bind.mpr (follows_bind.mpr (knows_perform (fun _ _ h => by cases h) fun x => ?_))
    cases x with
    | error message => trivial
    | ok current =>
      refine follows_bind.mpr (knows_getRuntimeTunnels.mono ?_ fun _ _ _ => trivial)
      rintro runtime _ ⟨looks, wireguard, openvpn, warp, rfl, hwireguard, hopenvpn, hwarp, hruntime⟩
      have hallows : ∀ patch, Mismatch current runtime →
          (Knowledge.read current looks).allows (.updateVpnState patch) := fun _ h =>
        ⟨current, looks, wireguard, openvpn, warp, rfl, hwireguard, hopenvpn, hwarp, hruntime ▸ h⟩
      split
      · exact follows_ite.mpr ⟨fun h => knows_correct (hallows _ h), fun _ => trivial⟩
      · refine follows_ite.mpr ⟨fun h => ?_, fun _ => trivial⟩
        refine follows_bind.mpr (knows_perform trivial fun _ => ?_)
        exact follows_bind.mpr (knows_perform trivial fun _ => knows_correct (hallows _ h))
      · next hnil hsingle =>
        refine knows_correct (hallows _ ?_)
        match runtime, hnil, hsingle with
        | [], hnil, _ => exact absurd rfl hnil
        | [actual], _, hsingle => exact absurd rfl (hsingle actual)
        | _ :: _ :: _, _, _ => trivial
  refine follows_bind.mpr (follows_bind.mpr (hreconcile.mono (fun _ _ _ => ?_) fun _ _ _ => trivial))
  exact follows_bind.mpr (knows_profileName.mono (fun _ _ _ => trivial) fun _ _ _ => trivial)

end Polls

/-! ## Watched runs -/

/-- The program has returned a success. -/
def succeeded : Op Result → Bool
  | .pure none => true
  | _ => false

theorem succeeded_iff {m : Op Result} : succeeded m = true ↔ m = .pure none := by
  constructor
  · intro h
    match m, h with
    | .pure none, _ => rfl
  · rintro rfl
    rfl

/-- The operation that had the lock last, if it has returned a success. -/
def System.success (s : System) (last : Option (ℕ × Stored)) : Option Thread :=
  last.bind fun l => s.threads[l.1]?.filter fun t => succeeded t.program

/-- The tunnel of a request is not up. -/
def System.gone (s : System) (t : Thread) : Bool :=
  t.request.target.any fun own => s.shared.level own ≠ .up

/-- A system, and what is known of the operation that had the lock last. -/
structure Watch where
  /-- the system -/
  system : System
  /-- *history*: the operation that had the lock last, and what it has stored since -/
  last : Option (ℕ × Stored)
  /-- *history*: it has returned a success, and its tunnel has not been up all the time since -/
  lost : Bool
  /-- *history*: the polls that have read the settings while nobody had the lock, as long as nobody
  has got it since -/
  fresh : List ℕ

/-- What is known of the last operation after a command of request `r`, which is number `i`. -/
def Watch.next (w : Watch) (i : ℕ) (r : Request) : (c : Cmd) → c.Answer → Option (ℕ × Stored)
  | .wait, _ => some (i, .nothing)
  | .updateVpnState patch, .ok _ =>
    if r = .status then w.last else w.last.map fun l => (l.1, l.2.next patch)
  | _, _ => w.last

/-- What is known of the polls. -/
def Watch.nextFresh (w : Watch) (i : ℕ) (r : Request) : (c : Cmd) → c.Answer → List ℕ
  | .wait, _ => []
  | .getSettings, .ok _ =>
    if r = .status ∧ w.system.shared.holder = none then i :: w.fresh else w.fresh
  | _, _ => w.fresh

/-- What happens next. -/
inductive Watch.Event where
  /-- a step of the system -/
  | act (a : Action)
  /-- a tunnel goes down by itself -/
  | die (t : Tunnel)

/-- The system goes on to `s`. -/
def Watch.goto (w : Watch) (s : System) (last : Option (ℕ × Stored)) (fresh : List ℕ) : Watch :=
  ⟨s, last, (s.success last).any fun t => w.lost || s.gone t, fresh⟩

/-- The system goes on with a command of request `i`. -/
def Watch.observe (w : Watch) (s : System) : Action → Watch
  | .run i answer =>
    match w.system.threads[i]? with
    | some t =>
      match t.program with
      | .call c _ =>
        w.goto s (w.next i t.request c (answer c)) (w.nextFresh i t.request c (answer c))
      | _ => w.goto s w.last w.fresh
    | none => w.goto s w.last w.fresh
  | _ => w.goto s w.last w.fresh

/-- The step of a watched system. -/
def Watch.step (w : Watch) : Watch.Event → Option Watch
  | .act a => (Vpn.step w.system a).map fun s => w.observe s a
  | .die t =>
    if w.system.shared.level t = .up then
      some (w.goto { w.system with shared := w.system.shared.setLevel t .down } w.last w.fresh)
    else none

/-- The request has not come to an end. -/
def Thread.running (t : Thread) : Prop := ∃ c k, t.program = .call c k

/-- The tunnel that a command looks at, and whether it sees it. -/
def Cmd.looks : (c : Cmd) → c.Answer → Option (Tunnel × Bool)
  | .isConnectionActive t, seen => some (t, seen)
  | .warpStatus, status => some (.warp, status.connected)
  | _, _ => none

/-- A command of poll `i`. -/
structure Timely.Poll (w : Watch) (i : ℕ) (c : Cmd) (x : c.Answer) : Prop where
  /-- it stores no correction if it has read the settings before somebody got the lock, or while
  somebody had it -/
  fresh : ∀ patch, c = .updateVpnState patch → i ∈ w.fresh
  /-- it does not miss the tunnel of an operation that has succeeded -/
  sees : ∀ t, c.looks x = some (t, false) → ∀ u ∈ w.system.success w.last,
    u.request.target = some t → w.system.shared.level t ≠ .up
  /-- there is no other tunnel for it to see -/
  alone : ∀ t, c.looks x = some (t, true) → ∀ u ∈ w.system.success w.last,
    u.request.target = some t

/-- There are operations and polls, and no poll acts on what it has read before an operation. -/
def Timely (w : Watch) : Watch.Event → Prop
  | .act (.request r _) => r.operation ∨ r = .status
  | .act (.run i answer) => ∀ t c k, w.system.threads[i]? = some t → t.request = .status →
    t.program = .call c k → Timely.Poll w i c (answer c)
  | _ => True

/-- What an operation has stored is there: that it is connecting as long as it runs, and its outcome
after its success with its tunnel still up. -/
def Watch.Kept (w : Watch) : Prop :=
  ∀ i g t, w.last = some (i, g) → w.system.threads[i]? = some t →
    (g = .connecting → t.running → w.system.shared.settings.vpnStatus = .connecting) ∧
    (t.program = .pure none → w.lost = false →
      w.system.shared.settings.stored = t.request.expected .outcome)

/-- What the operation has stored is there: it is connecting, or it has stored its outcome and has
not failed after it. -/
def Thread.Stands (t : Thread) (g : Stored) (lost : Bool) : Prop :=
  g = .connecting ∧ t.running ∨
    g = .outcome ∧ (t.running ∨ t.program = .pure none ∧ lost = false)

/-- Operation `i` is here. -/
def Watch.Place (w : Watch) (i : ℕ) : Progress → Prop
  | .outside => ∀ g, w.last ≠ some (i, g)
  | .inside g => w.system.shared.holder = some i ∧ w.last = some (i, g)
  | .after g => ∀ g', w.last = some (i, g') → g' = g

/-- What a fresh poll knows is what the operation has stored and brought up. -/
def Knowledge.Fits (w : Watch) : Knowledge → Prop
  | .read current looks => w.lost = false → ∀ u ∈ w.system.success w.last,
    current.stored = u.request.expected .outcome ∧
      ∀ t seen, looks t = some seen → seen = decide (u.request.target = some t)
  | _ => True

/-- The invariant. -/
structure Watch.Inv (w : Watch) : Prop where
  /-- there are operations and polls -/
  requests : ∀ t ∈ w.system.threads, t.request.operation ∨ t.request = .status
  /-- every poll goes on from what it knows -/
  polls : ∀ i t, w.system.threads[i]? = some t → t.request = .status →
    ∃ k, Follows knowledge t.program k Whatever Whatever ∧ (i ∈ w.fresh → k.Fits w)
  /-- every operation goes on from where it is -/
  progress : ∀ i t, w.system.threads[i]? = some t → t.request.operation →
    ∃ p, w.Place i p ∧ Follows (progress t.request) t.program p Over fun _ q => ∃ g, q = .after g
  /-- the last one is an operation -/
  last : ∀ i g, w.last = some (i, g) → ∃ t, w.system.threads[i]? = some t ∧ t.request.operation
  /-- no poll is fresh while it runs -/
  apart : ∀ i g t, w.last = some (i, g) → w.system.threads[i]? = some t → t.running → w.fresh = []
  /-- what it has stored is there -/
  stored : ∀ i g t, w.last = some (i, g) → w.system.threads[i]? = some t → t.Stands g w.lost →
    w.system.shared.settings.stored = t.request.expected g
  /-- its tunnel is up -/
  up : w.lost = false → ∀ u ∈ w.system.success w.last, w.system.gone u = false

theorem System.mem_success {s : System} {last : Option (ℕ × Stored)} {u : Thread} :
    u ∈ s.success last ↔ ∃ i g, last = some (i, g) ∧ s.threads[i]? = some u ∧
      u.program = .pure none := by
  rw [success, Option.mem_def, Option.bind_eq_some_iff]
  constructor
  · rintro ⟨⟨i, g⟩, rfl, h⟩
    obtain ⟨hi, hu⟩ := Option.filter_eq_some_iff.mp h
    exact ⟨i, g, rfl, hi, succeeded_iff.mp hu⟩
  · rintro ⟨i, g, rfl, hi, hu⟩
    exact ⟨(i, g), rfl, Option.filter_eq_some_iff.mpr ⟨hi, succeeded_iff.mpr hu⟩⟩

/-- While the operation runs it is inside. -/
theorem Watch.Inv.holder {w : Watch} (h : w.Inv) {i : ℕ} {g : Stored} {t : Thread}
    (hlast : w.last = some (i, g)) (hi : w.system.threads[i]? = some t) (hrunning : t.running) :
    w.system.shared.holder = some i := by
  obtain ⟨t', hi', hoperation⟩ := h.last i g hlast
  obtain rfl := Option.some.inj (hi.symm.trans hi')
  obtain ⟨p, hplace, hfollows⟩ := h.progress i t hi hoperation
  cases p with
  | outside => exact absurd hlast (hplace g)
  | inside g' => exact hplace.1
  | after g' => exact absurd hrunning (not_call_of_after hfollows)

/-- A success has stored its outcome. -/
theorem Watch.Inv.outcome {w : Watch} (h : w.Inv) {i : ℕ} {g : Stored} {t : Thread}
    (hlast : w.last = some (i, g)) (hi : w.system.threads[i]? = some t)
    (hsuccess : t.program = .pure none) : g = .outcome := by
  obtain ⟨t', hi', hoperation⟩ := h.last i g hlast
  obtain rfl := Option.some.inj (hi.symm.trans hi')
  obtain ⟨p, hplace, hfollows⟩ := h.progress i t hi hoperation
  rw [hsuccess] at hfollows
  obtain ⟨g', rfl, hg'⟩ := hfollows
  obtain rfl := hplace g hlast
  exact hg' rfl

theorem Watch.Inv.kept {w : Watch} (h : w.Inv) : w.Kept := by
  intro i g t hlast hi
  constructor
  · rintro rfl hrunning
    have hstored := h.stored i _ t hlast hi (.inl ⟨rfl, hrunning⟩)
    rw [Settings.stored, Request.expected_connecting, Prod.mk.injEq] at hstored
    exact hstored.1
  · intro hsuccess hlost
    obtain rfl := h.outcome hlast hi hsuccess
    exact h.stored i _ t hlast hi (.inr ⟨rfl, .inr ⟨hsuccess, hlost⟩⟩)

/-- A fresh poll finds what the operation has stored, and has nothing to correct. -/
theorem not_mismatch {r : Request} {current : Settings} {wireguard openvpn warp : Bool}
    (hstored : current.stored = r.expected .outcome)
    (hwireguard : wireguard = decide (r.target = some .wireguard))
    (hopenvpn : openvpn = decide (r.target = some .openvpn))
    (hwarp : warp = decide (r.target = some .warp)) :
    ¬Mismatch current (activeTunnels wireguard openvpn warp) := by
  rw [Settings.stored, Request.expected_outcome, Prod.mk.injEq, Prod.mk.injEq] at hstored
  obtain ⟨hstatus, htype, -⟩ := hstored
  subst hwireguard hopenvpn hwarp
  cases htarget : r.target with
  | none =>
    rw [htarget, if_pos rfl] at hstatus
    simp [Mismatch, activeTunnels, hstatus]
  | some own =>
    rw [htarget, if_neg (Option.some_ne_none own)] at hstatus
    rw [htarget] at htype
    cases own <;> simp [Mismatch, activeTunnels, hstatus, htype]

section Steps

variable {w : Watch} {i : ℕ} {s s' : State} {t : Thread} {c : Cmd} {x : c.Answer}

/-- Only one command changes what is stored. -/
theorem effect_settings (h : effect i s c x = some s') (hc : ∀ patch, c ≠ .updateVpnState patch) :
    s'.settings = s.settings := by
  cases c with
  | updateVpnState patch => exact absurd rfl (hc patch)
  | stop t =>
    obtain rfl := Option.some.inj h
    rw [State.stop]
    split <;> rfl
  | start t =>
    obtain rfl := Option.some.inj h
    rw [State.start]
    split <;> rfl
  | isConnectionActive t =>
    rw [effect, State.look] at h
    split at h
    · cases h
    · obtain rfl := Option.some.inj h; rfl
  | warpStatus =>
    rw [effect, State.look] at h
    split at h
    · cases h
    · obtain rfl := Option.some.inj h; rfl
  | getSettings =>
    cases x with
    | error => obtain rfl := Option.some.inj h; rfl
    | ok settings =>
      rw [effect] at h
      split at h
      · obtain rfl := Option.some.inj h; rfl
      · cases h
  | openvpnPoll =>
    cases x with
    | ready =>
      rw [effect] at h
      split at h
      · obtain rfl := Option.some.inj h; rfl
      · cases h
    | _ => obtain rfl := Option.some.inj h; rfl
  | enter => rw [effect] at h; split at h <;> obtain rfl := Option.some.inj h <;> rfl
  | wait =>
    rw [effect] at h
    split at h
    · obtain rfl := Option.some.inj h; rfl
    · cases h
  | isBusy =>
    rw [effect] at h
    split at h
    · obtain rfl := Option.some.inj h; rfl
    · cases h
  | _ => obtain rfl := Option.some.inj h; rfl

/-- The commands of the lock are the only ones that change its holder. -/
theorem effect_holder (h : effect i s c x = some s') (henter : c ≠ .enter) (hleave : c ≠ .leave) :
    s'.holder = s.holder := by
  by_cases hstop : ∃ u, c = .stop u
  · obtain ⟨u, rfl⟩ := hstop
    obtain rfl := Option.some.inj h
    rw [State.stop]
    split <;> rfl
  · by_cases hstart : ∃ u, c = .start u
    · obtain ⟨u, rfl⟩ := hstart
      obtain rfl := Option.some.inj h
      rw [State.start]
      split <;> rfl
    · exact (effect_frame h (fun u hu => hstop ⟨u, hu⟩) fun u hu => hstart ⟨u, hu⟩).2 henter hleave

/-- A poll is no operation. -/
theorem not_operation_status : ¬Request.status.operation := by
  rintro (h | h)
  · exact h rfl
  · cases h

/-- What has not been lost was not lost before. -/
theorem lost_of_goto {s : System} {last : Option (ℕ × Stored)} {fresh : List ℕ} {u : Thread}
    (hu : u ∈ s.success last) (h : (w.goto s last fresh).lost = false) :
    w.lost = false ∧ s.gone u = false := by
  rw [Watch.goto, Option.mem_def.mp hu, Option.any_some, Bool.or_eq_false_iff] at h
  exact h

/-- What a fresh poll knows stays true while no operation goes on. -/
theorem Knowledge.Fits.goto {k : Knowledge} {s : System} {last : Option (ℕ × Stored)}
    {fresh : List ℕ} (h : k.Fits w) (hsame : ∀ u ∈ s.success last, u ∈ w.system.success w.last) :
    k.Fits (w.goto s last fresh) := by
  cases k with
  | read current looks =>
    exact fun hlost u hu => h (lost_of_goto hu hlost).1 u (hsame u hu)
  | _ => trivial

/-- Thread `i` goes on. -/
theorem Watch.Inv.set (h : w.Inv) (hi : w.system.threads[i]? = some t) {p : Phase}
    {m : Op Result} {last : Option (ℕ × Stored)} {fresh : List ℕ} {w' : Watch}
    (hw : w' = w.goto ⟨s', w.system.threads.set i ⟨t.request, p, m⟩⟩ last fresh)
    (hpoll : t.request = .status →
      ∃ k, Follows knowledge m k Whatever Whatever ∧ (i ∈ fresh → k.Fits w'))
    (hprogress : t.request.operation → ∃ q : Progress, w'.Place i q ∧
      Follows (Vpn.progress t.request) m q Over fun _ q => ∃ g, q = .after g)
    (hplaces : ∀ j q, j ≠ i → w.Place j q → w'.Place j q)
    (hlast : ∀ j g, last = some (j, g) → (j = i ∧ t.request.operation) ∨ ∃ g', w.last = some (j, g'))
    (hfresh : ∀ j ∈ fresh, (j ∈ w.fresh ∨ j = i) ∧ last = w.last ∧ ∀ g, w.last ≠ some (i, g))
    (happly : ∀ j g u, last = some (j, g) → w'.system.threads[j]? = some u → u.running → fresh = [])
    (hown : ∀ g, last = some (i, g) → t.request.operation →
      Thread.Stands ⟨t.request, p, m⟩ g w'.lost → s'.settings.stored = t.request.expected g)
    (hothers : ∀ j g u, j ≠ i → last = some (j, g) → w.system.threads[j]? = some u →
      u.Stands g w'.lost → s'.settings.stored = u.request.expected g) : w'.Inv := by
  subst hw
  refine ⟨forall_mem_set h.requests (h.requests t (List.mem_of_getElem? hi)), fun j u hj hu => ?_,
    fun j u hj hu => ?_, fun j g hj => ?_, happly, fun j g u hj hu hstands => ?_,
    fun hlost u hu => (lost_of_goto hu hlost).2⟩
  · rcases getElem?_set_cases hj with ⟨rfl, rfl⟩ | ⟨hji, hj⟩
    · exact hpoll hu
    · obtain ⟨k, hfollows, hfits⟩ := h.polls j u hj hu
      refine ⟨k, hfollows, fun hmem => ?_⟩
      obtain ⟨hmem, hlast, hnot⟩ := hfresh j hmem
      refine (hfits (hmem.resolve_right hji)).goto fun v hv => ?_
      -- the last operation is another thread, and as it was
      obtain ⟨l, g, hl, hv, hsuccess⟩ := System.mem_success.mp hv
      rw [hlast] at hl
      rcases getElem?_set_cases hv with ⟨rfl, -⟩ | ⟨-, hv⟩
      · exact absurd hl (hnot g)
      · exact System.mem_success.mpr ⟨l, g, hl, hv, hsuccess⟩
  · rcases getElem?_set_cases hj with ⟨rfl, rfl⟩ | ⟨hji, hj⟩
    · exact hprogress hu
    · obtain ⟨q, hplace, hfollows⟩ := h.progress j u hj hu
      exact ⟨q, hplaces j q hji hplace, hfollows⟩
  · rcases hlast j g hj with ⟨rfl, hoperation⟩ | ⟨g', hg'⟩
    · exact ⟨_, getElem?_set_of_some hi, hoperation⟩
    · obtain ⟨u, hu, hoperation⟩ := h.last j g' hg'
      by_cases hji : j = i
      · subst hji
        obtain rfl := Option.some.inj (hu.symm.trans hi)
        exact ⟨_, getElem?_set_of_some hi, hoperation⟩
      · exact ⟨u, (List.getElem?_set_ne (Ne.symm hji)).trans hu, hoperation⟩
  · rcases getElem?_set_cases hu with ⟨rfl, rfl⟩ | ⟨hji, hu⟩
    · rcases hlast j g hj with ⟨-, hoperation⟩ | ⟨g', hg'⟩
      · exact hown g hj hoperation hstands
      · obtain ⟨t', ht', hoperation⟩ := h.last j g' hg'
        obtain rfl := Option.some.inj (hi.symm.trans ht')
        exact hown g hj hoperation hstands
    · exact hothers j g u hji hj hu hstands

/-- What a running operation has stored stands. -/
theorem Thread.stands_of_running {g : Stored} {t' : Thread} {lost lost' : Bool}
    (hrunning : t.running) (h : t'.Stands g lost') : t.Stands g lost := by
  rcases h with ⟨rfl, -⟩ | ⟨rfl, -⟩
  · exact .inl ⟨rfl, hrunning⟩
  · exact .inr ⟨rfl, .inl hrunning⟩

theorem mem_nextFresh {r : Request} {j : ℕ} (h : j ∈ w.nextFresh i r c x) : j ∈ w.fresh ∨ j = i := by
  cases c with
  | wait => cases h
  | getSettings =>
    cases x with
    | error message => exact .inl h
    | ok settings =>
      rw [Watch.nextFresh] at h
      split at h
      · exact (List.mem_cons.mp h).symm
      · exact .inl h
  | _ => exact .inl h

/-- While the last operation runs, no poll gets fresh. -/
theorem Watch.Inv.nextFresh_eq_nil (h : w.Inv) {r : Request} {j : ℕ} {g : Stored} {u : Thread}
    (hj : w.last = some (j, g)) (hu : w.system.threads[j]? = some u) (hrunning : u.running) :
    w.nextFresh i r c x = [] := by
  have hnil := h.apart j g u hj hu hrunning
  cases c with
  | wait => rfl
  | getSettings =>
    cases x with
    | error message => exact hnil
    | ok settings =>
      rw [Watch.nextFresh, if_neg]
      · exact hnil
      · rintro ⟨-, hholder⟩
        rw [h.holder hj hu hrunning] at hholder
        cases hholder
  | _ => exact hnil

/-- What a poll knows after a look that is right. -/
theorem fits_look {k : Knowledge} (h : k.Fits w) (hup : w.lost = false →
    ∀ u ∈ w.system.success w.last, w.system.gone u = false) {s : System} {fresh : List ℕ} {v : Tunnel}
    {seen : Bool} (hsame : ∀ u, u ∈ s.success w.last → u ∈ w.system.success w.last)
    (hsees : seen = false → ∀ u ∈ w.system.success w.last, u.request.target = some v →
      w.system.shared.level v ≠ .up)
    (halone : seen = true → ∀ u ∈ w.system.success w.last, u.request.target = some v) :
    (k.look v seen).Fits (w.goto s w.last fresh) := by
  cases k with
  | read current looks =>
    intro hlost u hu
    have hlost := (lost_of_goto hu hlost).1
    have hu := hsame u hu
    obtain ⟨hcurrent, hlooks⟩ := h hlost u hu
    refine ⟨hcurrent, fun v' seen' hseen' => ?_⟩
    by_cases hv : v' = v
    · subst hv
      rw [Function.update_self] at hseen'
      obtain rfl := Option.some.inj hseen'
      cases seen with
      | true => exact (decide_eq_true (halone rfl u hu)).symm
      | false =>
        refine (decide_eq_false fun htarget => hsees rfl u hu htarget ?_).symm
        have hgone := hup hlost u hu
        rw [System.gone, htarget, Option.any_some] at hgone
        exact not_not.mp (of_decide_eq_false hgone)
    · rw [Function.update_of_ne hv] at hseen'
      exact hlooks v' seen' hseen'
  | _ => trivial

/-- What a poll knows after a command. -/
theorem Watch.Inv.fits_next (h : w.Inv) {r : Request} {k : Knowledge} {s : System} {fresh : List ℕ}
    (ha : Timely.Poll w i c x)
    (hsame : ∀ u, u ∈ s.success w.last → u ∈ w.system.success w.last) (hallowed : k.allows c)
    (heffect : effect i w.system.shared c x = some s') (hfits : i ∈ w.fresh → k.Fits w)
    (hmem : i ∈ w.nextFresh i r c x) : (k.next c x).Fits (w.goto s w.last fresh) := by
  have hkeep : i ∈ w.fresh → k.Fits (w.goto s w.last fresh) := fun hi => (hfits hi).goto hsame
  cases c with
  | getSettings =>
    cases x with
    | error message => exact hkeep hmem
    | ok settings =>
      cases k with
      | nothing =>
        intro hlost u hu
        have hlost := (lost_of_goto hu hlost).1
        obtain ⟨j, g, hj, hu, hsuccess⟩ := System.mem_success.mp (hsame u hu)
        obtain rfl := h.outcome hj hu hsuccess
        rw [effect] at heffect
        split at heffect
        · next hsettings =>
          rw [hsettings]
          exact ⟨h.stored j _ u hj hu (.inr ⟨rfl, .inr ⟨hsuccess, hlost⟩⟩), fun _ _ h => by cases h⟩
        · cases heffect
      | read current looks => exact absurd rfl (hallowed current looks)
      | corrected => trivial
  | isConnectionActive v =>
    refine fits_look (hfits hmem) h.up hsame ?_ ?_
    · rintro rfl
      exact ha.sees v rfl
    · rintro rfl
      exact ha.alone v rfl
  | warpStatus =>
    refine fits_look (hfits hmem) h.up hsame (fun hseen => ?_) fun hseen => ?_
    · exact ha.sees .warp (congrArg (fun b => some (Tunnel.warp, b)) hseen)
    · exact ha.alone .warp (congrArg (fun b => some (Tunnel.warp, b)) hseen)
  | updateVpnState patch => trivial
  | wait => cases hmem
  | _ => exact hkeep hmem

/-- **One command** of a poll. -/
theorem Watch.Inv.poll (h : w.Inv) (hi : w.system.threads[i]? = some t) (hr : t.request = .status)
    (ha : Timely.Poll w i c x) {m : c.Answer → Op Result} (hprogram : t.program = .call c m)
    (heffect : effect i w.system.shared c x = some s') (p : Phase) :
    Watch.Inv (w.goto ⟨s', w.system.threads.set i ⟨t.request, p, m x⟩⟩ (w.next i t.request c x)
      (w.nextFresh i t.request c x)) := by
  have hnot : ¬t.request.operation := by
    rw [hr]
    exact not_operation_status
  have hother : ∀ g, w.last ≠ some (i, g) := by
    intro g hg
    obtain ⟨t', hi', hoperation⟩ := h.last i g hg
    obtain rfl := Option.some.inj (hi.symm.trans hi')
    exact hnot hoperation
  obtain ⟨k, hfollows, hfits⟩ := h.polls i t hi hr
  rw [hprogram] at hfollows
  obtain ⟨hallowed, hrest⟩ := hfollows
  have henter : c ≠ .enter := by rintro rfl; exact hallowed
  have hwait : c ≠ .wait := by rintro rfl; exact hallowed
  have hleave : c ≠ .leave := by rintro rfl; exact hallowed
  have hholder := effect_holder heffect henter hleave
  have hkeep : w.next i t.request c x = w.last := by
    cases c with
    | wait => exact absurd rfl hwait
    | updateVpnState patch =>
      cases x with
      | error message => rfl
      | ok => exact if_pos hr
    | _ => rfl
  rw [hkeep]
  -- the last operation is another thread
  have hsame : ∀ u, u ∈ System.success ⟨s', w.system.threads.set i ⟨t.request, p, m x⟩⟩ w.last →
      u ∈ w.system.success w.last := by
    intro u hu
    obtain ⟨j, g, hj, hu, hsuccess⟩ := System.mem_success.mp hu
    rcases getElem?_set_cases hu with ⟨rfl, -⟩ | ⟨-, hu⟩
    · exact absurd hj (hother g)
    · exact System.mem_success.mpr ⟨j, g, hj, hu, hsuccess⟩
  have hlost : ∀ fresh u, u ∈ System.success ⟨s', w.system.threads.set i ⟨t.request, p, m x⟩⟩ w.last →
      (w.goto ⟨s', w.system.threads.set i ⟨t.request, p, m x⟩⟩ w.last fresh).lost = false →
        w.lost = false := fun _ u hu h => (lost_of_goto hu h).1
  refine h.set hi rfl (fun _ => ⟨k.next c x, hrest x _ rfl, fun hmem => ?_⟩)
    (fun hoperation => absurd hoperation hnot) ?_ (fun j g hj => .inr ⟨g, hj⟩) ?_ ?_
    (fun g _ hoperation => absurd hoperation hnot) ?_
  · exact h.fits_next ha hsame hallowed heffect hfits hmem
  · intro j q _ hplace
    cases q with
    | outside => exact hplace
    | inside g => exact ⟨hholder.trans hplace.1, hplace.2⟩
    | after g => exact hplace
  · exact fun j hj => ⟨mem_nextFresh hj, rfl, hother⟩
  · intro j g u hj hu hrunning
    rcases getElem?_set_cases hu with ⟨rfl, -⟩ | ⟨-, hu⟩
    · exact absurd hj (hother g)
    · exact h.nextFresh_eq_nil hj hu hrunning
  · intro j g u hji hj hu hstands
    have hstored : u.Stands g w.lost := by
      rcases hstands with hconnecting | ⟨rfl, hrunning | ⟨hsuccess, hlost'⟩⟩
      · exact .inl hconnecting
      · exact .inr ⟨rfl, .inl hrunning⟩
      · refine .inr ⟨rfl, .inr ⟨hsuccess, hlost _ u ?_ hlost'⟩⟩
        exact System.mem_success.mpr
          ⟨j, _, hj, (List.getElem?_set_ne (Ne.symm hji)).trans hu, hsuccess⟩
    by_cases hstore : ∃ patch, c = .updateVpnState patch
    · obtain ⟨patch, rfl⟩ := hstore
      have hfresh := ha.fresh patch rfl
      have hended : ¬u.running := fun hrunning => by
        rw [h.apart j g u hj hu hrunning] at hfresh
        cases hfresh
      rcases hstored with ⟨-, hrunning⟩ | ⟨rfl, hrunning | ⟨hsuccess, hlost⟩⟩
      · exact absurd hrunning hended
      · exact absurd hrunning hended
      · -- a fresh poll has nothing to correct
        obtain ⟨current, looks, wireguard, openvpn, warp, rfl, hw, ho, hp, hmismatch⟩ := hallowed
        obtain ⟨hcurrent, hlooks⟩ :=
          hfits hfresh hlost u (System.mem_success.mpr ⟨j, _, hj, hu, hsuccess⟩)
        exact absurd hmismatch
          (not_mismatch hcurrent (hlooks _ _ hw) (hlooks _ _ ho) (hlooks _ _ hp))
    · rw [effect_settings heffect fun patch hpatch => hstore ⟨patch, hpatch⟩]
      exact h.stored j g u hj hu hstored

/-- A command of an operation makes no poll fresh. -/
theorem nextFresh_of_ne {r : Request} (hr : r ≠ .status) :
    w.nextFresh i r c x = [] ∨ w.nextFresh i r c x = w.fresh := by
  cases c with
  | wait => exact .inl rfl
  | getSettings =>
    cases x with
    | error message => exact .inr rfl
    | ok settings => exact .inr (if_neg fun h => hr h.1)
  | _ => exact .inr rfl

/-- **One command** of an operation. -/
theorem Watch.Inv.operate (h : w.Inv) (hi : w.system.threads[i]? = some t)
    (hr : t.request.operation) {m : c.Answer → Op Result} (hprogram : t.program = .call c m)
    (heffect : effect i w.system.shared c x = some s') (p : Phase) :
    Watch.Inv (w.goto ⟨s', w.system.threads.set i ⟨t.request, p, m x⟩⟩ (w.next i t.request c x)
      (w.nextFresh i t.request c x)) := by
  have hstatus : t.request ≠ .status := by
    intro hstatus
    rw [hstatus] at hr
    exact not_operation_status hr
  obtain ⟨q, hplace, hfollows⟩ := h.progress i t hi hr
  rw [hprogram] at hfollows
  obtain ⟨hallowed, hnext⟩ := hfollows
  have hrest := hnext x _ rfl
  have hrunning : t.running := ⟨c, m, hprogram⟩
  have hnil : ∀ g, w.last = some (i, g) → w.fresh = [] := fun g hg => h.apart i g t hg hi hrunning
  have hnilNext : (∃ g, w.last = some (i, g)) → w.nextFresh i t.request c x = [] := by
    rintro ⟨g, hg⟩
    rcases nextFresh_of_ne (w := w) (i := i) (c := c) (x := x) hstatus with hnone | hsame
    · exact hnone
    · rw [hsame, hnil g hg]
  -- what stands is there, as long as neither the settings nor the operation change
  have hstored : s'.settings = w.system.shared.settings → ∀ last fresh j g u, last = w.last →
      j ≠ i → last = some (j, g) → w.system.threads[j]? = some u →
      u.Stands g (w.goto ⟨s', w.system.threads.set i ⟨t.request, p, m x⟩⟩ last fresh).lost →
        s'.settings.stored = u.request.expected g := by
    rintro hsame _ fresh j g u rfl hji hj hu hstands
    rw [hsame]
    refine h.stored j g u hj hu ?_
    rcases hstands with hconnecting | ⟨rfl, hrunning | ⟨hsuccess, hlost⟩⟩
    · exact .inl hconnecting
    · exact .inr ⟨rfl, .inl hrunning⟩
    · refine .inr ⟨rfl, .inr ⟨hsuccess, (lost_of_goto (System.mem_success.mpr
        ⟨j, _, hj, (List.getElem?_set_ne (Ne.symm hji)).trans hu, hsuccess⟩) hlost).1⟩⟩
  have hmine : s'.settings = w.system.shared.settings → ∀ g lost, w.last = some (i, g) →
      t.request.operation → Thread.Stands ⟨t.request, p, m x⟩ g lost →
        s'.settings.stored = t.request.expected g := by
    intro hsame g _ hg _ hstands
    rw [hsame]
    exact h.stored i g t hg hi (t.stands_of_running hrunning hstands)
  -- a command that changes neither who was last nor what is stored
  have hquiet : s'.settings = w.system.shared.settings → w.next i t.request c x = w.last →
      ∀ q, Watch.Place (w.goto ⟨s', w.system.threads.set i ⟨t.request, p, m x⟩⟩
        w.last (w.nextFresh i t.request c x)) i q → Follows (Vpn.progress t.request) (m x) q Over
          (fun _ q => ∃ g, q = .after g) → (∀ j q, j ≠ i → w.Place j q → Watch.Place (w.goto
            ⟨s', w.system.threads.set i ⟨t.request, p, m x⟩⟩ w.last
              (w.nextFresh i t.request c x)) j q) →
      Watch.Inv (w.goto ⟨s', w.system.threads.set i ⟨t.request, p, m x⟩⟩
        (w.next i t.request c x) (w.nextFresh i t.request c x)) := by
    intro hsettings hlast q hq hrest hplaces
    rw [hlast]
    refine h.set hi rfl (fun hpoll => absurd hpoll hstatus) (fun _ => ⟨q, hq, hrest⟩) hplaces
      (fun j g hj => .inr ⟨g, hj⟩) ?_ ?_ (fun g hg hop => hmine hsettings g _ hg hop)
      fun j g u => hstored hsettings w.last _ j g u rfl
    · intro j hj
      have hother : ∀ g, w.last ≠ some (i, g) := fun g hg => by
        rw [hnilNext ⟨g, hg⟩] at hj
        cases hj
      exact ⟨mem_nextFresh hj, rfl, hother⟩
    · intro j g u hj hu hrunning'
      rcases getElem?_set_cases hu with ⟨rfl, -⟩ | ⟨-, hu⟩
      · exact hnilNext ⟨g, hj⟩
      · exact h.nextFresh_eq_nil hj hu hrunning'
  -- the others do not have the lock while this operation has it
  have hapart : w.system.shared.holder = some i → ∀ j g, j ≠ i → ¬w.Place j (.inside g) := by
    intro hholder j g hji hplace
    exact hji (Option.some.inj (hplace.1.symm.trans hholder))
  cases c with
  | enter =>
    have hplaces : ∀ j q, w.Place j q → Watch.Place (w.goto ⟨s', w.system.threads.set i
        ⟨t.request, p, m x⟩⟩ w.last (w.nextFresh i t.request .enter x)) j q := by
      intro j q hplace
      cases q with
      | outside => exact hplace
      | inside g =>
        -- somebody has the lock, so it is not free
        rw [effect, if_neg (by rw [hplace.1]; exact Option.some_ne_none j)] at heffect
        obtain rfl := Option.some.inj heffect
        exact hplace
      | after g => exact hplace
    have hsettings := effect_settings heffect fun _ h => by cases h
    exact hquiet hsettings rfl q (hplaces i q hplace) hrest fun j q _ => hplaces j q
  | wait =>
    obtain rfl := hallowed
    rw [effect] at heffect
    split at heffect
    · next hholder =>
      obtain rfl := Option.some.inj heffect
      refine h.set hi rfl (fun hpoll => absurd hpoll hstatus)
        (fun _ => ⟨.inside .nothing, ⟨hholder, rfl⟩, hrest⟩) ?_ ?_ (fun _ h => by cases h)
        (fun _ _ _ _ _ _ => rfl) ?_ ?_
      · intro j q hji hplace
        cases q with
        | outside => exact fun g hg => hji (Prod.mk.inj (Option.some.inj hg)).1.symm
        | inside g => exact absurd hplace (hapart hholder j g hji)
        | after g => exact fun g' hg => absurd (Prod.mk.inj (Option.some.inj hg)).1.symm hji
      · exact fun j g hj => .inl ⟨(Prod.mk.inj (Option.some.inj hj)).1.symm, hr⟩
      · intro g hg _ hstands
        obtain rfl := (Prod.mk.inj (Option.some.inj hg)).2
        rcases hstands with ⟨h, -⟩ | ⟨h, -⟩ <;> cases h
      · exact fun j g u hji hj => absurd (Prod.mk.inj (Option.some.inj hj)).1.symm hji
    · cases heffect
  | leave =>
    obtain ⟨g, rfl⟩ := hallowed
    have hsettings := effect_settings heffect fun _ h => by cases h
    refine hquiet hsettings rfl (.after g) ?_ hrest ?_
    · intro g' hg'
      exact (Prod.mk.inj (Option.some.inj (hg'.symm.trans hplace.2))).2
    · intro j q hji hj
      cases q with
      | outside => exact hj
      | inside g' => exact absurd hj (hapart hplace.1 j g' hji)
      | after g' => exact hj
  | updateVpnState patch =>
    obtain ⟨g, rfl, hwrites⟩ := hallowed
    cases x with
    | error message =>
      obtain rfl := Option.some.inj heffect
      refine hquiet rfl rfl (.inside g) hplace hrest fun j q hji hj => ?_
      cases q with
      | outside => exact hj
      | inside g' => exact hj
      | after g' => exact hj
    | ok done =>
      obtain rfl := Option.some.inj heffect
      have hlast : w.next i t.request (.updateVpnState patch) (.ok done) =
          some (i, g.next patch) := by
        rw [Watch.next.eq_def]
        simp only [if_neg hstatus, hplace.2, Option.map_some]
      have hnone : w.nextFresh i t.request (.updateVpnState patch) (.ok done) = [] :=
        hnilNext ⟨g, hplace.2⟩
      rw [hlast, hnone]
      refine h.set hi rfl (fun hpoll => absurd hpoll hstatus)
        (fun _ => ⟨.inside (g.next patch), ⟨hplace.1, rfl⟩, hrest⟩) ?_ ?_ (fun _ h => by cases h)
        (fun _ _ _ _ _ _ => rfl) ?_ ?_
      · intro j q hji hj
        cases q with
        | outside => exact fun g' hg => hji (Prod.mk.inj (Option.some.inj hg)).1.symm
        | inside g' => exact absurd hj (hapart hplace.1 j g' hji)
        | after g' => exact fun g'' hg => absurd (Prod.mk.inj (Option.some.inj hg)).1.symm hji
      · exact fun j g' hj => .inl ⟨(Prod.mk.inj (Option.some.inj hj)).1.symm, hr⟩
      · intro g' hg' _ hstands
        obtain rfl := (Prod.mk.inj (Option.some.inj hg')).2
        rcases hstands with ⟨hg, -⟩ | ⟨hg, -⟩
        · rw [hg]
          exact hwrites.1 hg _
        · rw [hg]
          refine hwrites.2 hg _ ?_
          rintro rfl
          exact h.stored i _ t hplace.2 hi (.inl ⟨rfl, hrunning⟩)
      · exact fun j g' u hji hj => absurd (Prod.mk.inj (Option.some.inj hj)).1.symm hji
  | _ =>
    have hsettings := effect_settings heffect fun _ h => by cases h
    have hholder := effect_holder heffect (fun h => by cases h) fun h => by cases h
    have hplaces : ∀ j q, w.Place j q → Watch.Place (w.goto ⟨s', w.system.threads.set i
        ⟨t.request, p, m x⟩⟩ w.last w.fresh) j q := by
      intro j q hplace
      cases q with
      | outside => exact hplace
      | inside g => exact ⟨hholder.trans hplace.1, hplace.2⟩
      | after g => exact hplace
    exact hquiet hsettings rfl q (hplaces i q hplace) hrest fun j q _ => hplaces j q

/-- The tunnels change by themselves. -/
theorem Watch.Inv.drift (h : w.Inv) {level : Tunnel → Level} : Watch.Inv (w.goto
    { w.system with shared := { w.system.shared with level := level } } w.last w.fresh) := by
  refine ⟨h.requests, fun i t hi hr => ?_, fun i t hi hr => ?_, h.last, h.apart,
    fun i g t hlast hi hstands => ?_, fun hlost u hu => (lost_of_goto hu hlost).2⟩
  · obtain ⟨k, hfollows, hfits⟩ := h.polls i t hi hr
    exact ⟨k, hfollows, fun hmem => (hfits hmem).goto fun _ hu => hu⟩
  · obtain ⟨q, hplace, hfollows⟩ := h.progress i t hi hr
    refine ⟨q, ?_, hfollows⟩
    cases q <;> exact hplace
  · refine h.stored i g t hlast hi ?_
    rcases hstands with hconnecting | ⟨rfl, hrunning | ⟨hsuccess, hlost⟩⟩
    · exact .inl hconnecting
    · exact .inr ⟨rfl, .inl hrunning⟩
    · exact .inr ⟨rfl, .inr ⟨hsuccess,
        (lost_of_goto (System.mem_success.mpr ⟨i, _, hlast, hi, hsuccess⟩) hlost).1⟩⟩

/-- A request comes in. -/
theorem Watch.Inv.request (h : w.Inv) {r : Request} {rounds : ℕ} (hr : r.operation ∨ r = .status) :
    Watch.Inv (w.goto { w.system with
      threads := w.system.threads ++ [⟨r, .looked 0, r.program rounds⟩] } w.last w.fresh) := by
  have hold : ∀ {i g t}, w.last = some (i, g) →
      (w.system.threads ++ [⟨r, .looked 0, r.program rounds⟩])[i]? = some t →
        w.system.threads[i]? = some t := by
    intro i g t hlast hi
    obtain ⟨t', hi', -⟩ := h.last i g hlast
    obtain rfl := Option.some.inj ((getElem?_append_of_some hi').symm.trans hi)
    exact hi'
  have hsame : ∀ u, u ∈ System.success { w.system with
      threads := w.system.threads ++ [⟨r, .looked 0, r.program rounds⟩] } w.last →
        u ∈ w.system.success w.last := by
    intro u hu
    obtain ⟨i, g, hlast, hi, hsuccess⟩ := System.mem_success.mp hu
    exact System.mem_success.mpr ⟨i, g, hlast, hold hlast hi, hsuccess⟩
  refine ⟨forall_mem_append h.requests hr, fun i t hi ht => ?_, fun i t hi ht => ?_,
    fun i g hlast => ?_, fun i g t hlast hi => h.apart i g t hlast (hold hlast hi),
    fun i g t hlast hi hstands => ?_, fun hlost u hu => (lost_of_goto hu hlost).2⟩
  · rcases getElem?_append_places hi with hi | ⟨-, rfl⟩
    · obtain ⟨k, hfollows, hfits⟩ := h.polls i t hi ht
      exact ⟨k, hfollows, fun hmem => (hfits hmem).goto hsame⟩
    · obtain rfl : r = .status := ht
      exact ⟨.nothing, knows_status rounds, fun _ => trivial⟩
  · rcases getElem?_append_places hi with hi | ⟨rfl, rfl⟩
    · obtain ⟨q, hplace, hfollows⟩ := h.progress i t hi ht
      refine ⟨q, ?_, hfollows⟩
      cases q <;> exact hplace
    · refine ⟨.outside, fun g hg => ?_, operation_progress ht rounds⟩
      obtain ⟨u, hu, -⟩ := h.last _ g hg
      exact absurd (List.getElem?_eq_some_iff.mp hu).1 (by simp)
  · obtain ⟨t, hi, ht⟩ := h.last i g hlast
    exact ⟨t, getElem?_append_of_some hi, ht⟩
  · have hi := hold hlast hi
    refine h.stored i g t hlast hi ?_
    rcases hstands with hconnecting | ⟨rfl, hrunning | ⟨hsuccess, hlost⟩⟩
    · exact .inl hconnecting
    · exact .inr ⟨rfl, .inl hrunning⟩
    · exact .inr ⟨rfl, .inr ⟨hsuccess, (lost_of_goto (System.mem_success.mpr
        ⟨i, _, hlast, getElem?_append_of_some hi, hsuccess⟩) hlost).1⟩⟩

/-- **One step** keeps the invariant. -/
theorem Watch.Inv.step {a : Watch.Event} {w' : Watch} (h : w.Inv) (ha : Timely w a)
    (hs : w.step a = some w') : w'.Inv := by
  cases a with
  | die v =>
    rw [Watch.step] at hs
    split at hs
    · obtain rfl := Option.some.inj hs
      exact h.drift
    · cases hs
  | act a =>
    obtain ⟨s, hstep, rfl⟩ := Option.map_eq_some_iff.mp hs
    clear hs
    cases a with
    | request r rounds =>
      obtain rfl := Option.some.inj hstep
      exact h.request ha
    | settle u up =>
      rw [Vpn.step] at hstep
      split at hstep
      · obtain rfl := Option.some.inj hstep
        exact h.drift
      · cases hstep
    | run i answer =>
      obtain ⟨t, hi, hstep⟩ := Option.bind_eq_some_iff.mp hstep
      rw [Thread.step] at hstep
      split at hstep
      · next c m hprogram =>
        obtain ⟨s', heffect, rfl⟩ := Option.map_eq_some_iff.mp hstep
        simp only [Watch.observe, hi, hprogram]
        rcases h.requests t (List.mem_of_getElem? hi) with ht | ht
        · exact h.operate hi ht hprogram heffect _
        · exact h.poll hi ht (ha t c m hi ht hprogram) hprogram heffect _
      · cases hstep
      · cases hstep

end Steps

/-- No request has come in. -/
def Watch.idle (settings : Settings) (bypass : List String) : Watch :=
  ⟨⟨.idle settings bypass, []⟩, none, false, []⟩

/-- **The outcome of an operation stands**: in every run of operations and polls in which no poll
stores a correction that rests on settings from before an operation, and the looks of the polls are
right, a connect operation that is on its way is stored as connecting, and after a success, with the
tunnel still up, the status, the type and the profile are those that the operation has stored, until
another one has the lock. -/
theorem outcome_stands {settings : Settings} {bypass : List String} {w : Watch}
    (h : Run Watch.step Timely (.idle settings bypass) w) : w.Kept := by
  refine Watch.Inv.kept (h.invariant (I := Watch.Inv) (fun w a w' hw ha hs => hw.step ha hs) ?_)
  exact ⟨nofun, nofun, nofun, nofun, nofun, nofun, nofun⟩

/-! ## Scripted runs -/

instance (r : Request) : Decidable r.operation := inferInstanceAs (Decidable (_ ∨ _))

/-- The program goes on. -/
def goesOn : Op Result → Bool
  | .call _ _ => true
  | _ => false

theorem running_of_goesOn {t : Thread} (h : goesOn t.program = true) : t.running := by
  cases hprogram : t.program with
  | pure result =>
    rw [hprogram] at h
    cases h
  | throw e =>
    rw [hprogram] at h
    cases h
  | call c k => exact ⟨c, k, hprogram⟩

/-- A line of a script, or a tunnel that dies. -/
def Watch.choose (w : Watch) : Move ⊕ Tunnel → Watch.Event
  | .inl move => .act (move.action w.system)
  | .inr t => .die t

/-- The command stores something. -/
def Cmd.stores : Cmd → Bool
  | .updateVpnState _ => true
  | _ => false

/-- A test for `Timely.Poll`. -/
def timelyPoll (w : Watch) (i : ℕ) (c : Cmd) (x : c.Answer) : Bool :=
  (!c.stores || w.fresh.contains i) &&
    (c.looks x).all fun look => (w.system.success w.last).all fun u =>
      if u.request.target = some look.1 then look.2 || w.system.shared.level look.1 ≠ .up
      else !look.2

/-- A test for `Timely`. -/
def timely (w : Watch) : Watch.Event → Bool
  | .act (.request r _) => decide (r.operation ∨ r = .status)
  | .act (.run i answer) =>
    match w.system.threads[i]? with
    | some t =>
      match t.program with
      | .call c _ => t.request ≠ .status || timelyPoll w i c (answer c)
      | _ => true
    | none => true
  | _ => true

theorem timelyPoll_sound {w : Watch} {i : ℕ} {c : Cmd} {x : c.Answer}
    (h : timelyPoll w i c x = true) : Timely.Poll w i c x := by
  rw [timelyPoll, Bool.and_eq_true] at h
  obtain ⟨hstores, hlooks⟩ := h
  have hlook : ∀ t seen, c.looks x = some (t, seen) → ∀ u ∈ w.system.success w.last,
      (if u.request.target = some t then seen || w.system.shared.level t ≠ .up else !seen) =
        true := by
    intro t seen hx u hu
    rw [hx, Option.all_some, Option.mem_def.mp hu, Option.all_some] at hlooks
    exact hlooks
  refine ⟨?_, fun t hx u hu htarget => ?_, fun t hx u hu => ?_⟩
  · rintro patch rfl
    simpa [Cmd.stores] using hstores
  · have := hlook t false hx u hu
    rw [if_pos htarget] at this
    simpa using this
  · have := hlook t true hx u hu
    by_contra htarget
    rw [if_neg htarget] at this
    cases this

theorem timely_sound (w : Watch) (a : Watch.Event) (h : timely w a = true) : Timely w a := by
  match a with
  | .die _ => trivial
  | .act (.settle _ _) => trivial
  | .act (.request r rounds) => exact (of_decide_eq_true h : r.operation ∨ r = .status)
  | .act (.run i answer) =>
    intro t c k hi hstatus hprogram
    simp only [timely, hi, hprogram, hstatus, ne_eq, not_true_eq_false, decide_false,
      Bool.false_or] at h
    exact timelyPoll_sound h

/-- What a scripted run is looked at for: who stored last, what is stored, and what the thread with
this number is doing. -/
structure Seen where
  last : Option (Nat × Stored)
  stored : VpnStatus × Option Tunnel × Option String
  lost : Bool
  request : Option Request
  succeeded : Bool
  goesOn : Bool
deriving DecidableEq

def Watch.seen (w : Watch) (i : Nat) : Seen :=
  { last := w.last
    stored := w.system.shared.settings.stored
    lost := w.lost
    request := (w.system.threads[i]?).map (·.request)
    succeeded := (w.system.threads[i]?).any fun t => Vpn.succeeded t.program
    goesOn := (w.system.threads[i]?).any fun t => Vpn.goesOn t.program }

/-- WARP is connected, and a poll finds it. -/
def pollAfter : List Move := warpConnects ++ .request .status :: List.replicate 5 (.turn 1)

/-- Then it dies, and another poll stores that. -/
def pollAfterDeath : List (Move ⊕ Tunnel) :=
  pollAfter.map .inl ++ [.inr .warp, .inl (.request .status)] ++ List.replicate 8 (.inl (.turn 2))

/-- The outcome stands as long as the tunnel is up. A poll that finds the tunnel dead may say so. -/
theorem outcome_stands_warp :
    (∃ w : Watch, Run Watch.step Timely (.idle initialSettings []) w ∧ w.lost = false ∧
      ∃ t, w.system.threads[0]? = some t ∧ t.program = .pure none ∧
        w.system.shared.settings.stored = t.request.expected .outcome) ∧
    ∃ w : Watch, Run Watch.step Timely (.idle initialSettings []) w ∧ w.lost = true ∧
      w.system.shared.settings.stored = (.error, some .warp, none) := by
  constructor
  · have h : (exec (fun w m => if timely w (w.choose m) then w.step (w.choose m) else none)
        (.idle initialSettings []) (pollAfter.map .inl)).map (·.seen 0) = some ⟨some (0, .outcome),
          (.connected, some .warp, none), false, some .connectWarp, true, false⟩ := by
      decide +kernel
    obtain ⟨w, hrun, hseen⟩ := Run.of_strategy timely_sound h
    obtain ⟨t, ht, -⟩ := Option.map_eq_some_iff.mp (congrArg Seen.request hseen)
    have hsuccess : ((w.system.threads[0]?).any fun t => succeeded t.program) = true :=
      congrArg Seen.succeeded hseen
    rw [ht] at hsuccess
    have hpure := succeeded_iff.mp hsuccess
    exact ⟨w, hrun, congrArg Seen.lost hseen, t, ht, hpure,
      (outcome_stands hrun 0 _ t (congrArg Seen.last hseen) ht).2 hpure
        (congrArg Seen.lost hseen)⟩
  · have h : (exec (fun w m => if timely w (w.choose m) then w.step (w.choose m) else none)
        (.idle initialSettings []) pollAfterDeath).map (·.seen 0) = some ⟨some (0, .outcome),
          (.error, some .warp, none), true, some .connectWarp, true, false⟩ := by
      decide +kernel
    obtain ⟨w, hrun, hseen⟩ := Run.of_strategy timely_sound h
    exact ⟨w, hrun, congrArg Seen.lost hseen, congrArg Seen.stored hseen⟩

/-! ## Polls that correct an operation -/

/-- Operations and polls only. -/
def polled (_ : Watch) : Watch.Event → Bool
  | .act (.request r _) => decide (r.operation ∨ r = .status)
  | .die _ => false
  | _ => true

/-- A poll has read that WARP is connected; WARP is disconnected, and the poll looks at the
tunnels. -/
def pollBeforeDisconnect : List Move :=
  warpConnects ++ [.request .status, .turn 1, .request .disconnect] ++
    List.replicate 11 (.turn 2) ++ List.replicate 5 (.turn 1)

/-- A poll sees the interface of WireGuard while it is being connected. -/
def pollWhileConnecting : List Move :=
  .request (.connectWireguard "home") :: List.replicate 25 (.turn 0) ++
    .request .status :: List.replicate 8 (.turn 1)

/-- **The claim fails**: a poll that started before a disconnect stores an error after its success,
and a poll stores that WireGuard is connected while the operation is connecting. -/
theorem poll_undoes_disconnect :
    (∃ w : Watch, Run Watch.step (fun w a => polled w a = true) (.idle initialSettings []) w ∧
      ¬w.Kept ∧ w.system.shared.settings.stored = (.error, none, none)) ∧
    ∃ w : Watch, Run Watch.step (fun w a => polled w a = true) (.idle initialSettings []) w ∧
      ¬w.Kept ∧ w.system.shared.settings.vpnStatus = .connected := by
  have hpolled : ∀ w a, polled w a = true → polled w a = true := fun _ _ h => h
  constructor
  · have h : (exec (fun w m => if polled w (w.choose m) then w.step (w.choose m) else none)
        (.idle initialSettings []) (pollBeforeDisconnect.map .inl)).map (·.seen 2) = some
          ⟨some (2, .outcome), (.error, none, none), false, some .disconnect, true, false⟩ := by
      decide +kernel
    obtain ⟨w, hrun, hseen⟩ := Run.of_strategy hpolled h
    have hstored : w.system.shared.settings.stored = (.error, none, none) :=
      congrArg Seen.stored hseen
    refine ⟨w, hrun, fun hkept => ?_, hstored⟩
    obtain ⟨t, ht, hrequest⟩ := Option.map_eq_some_iff.mp (congrArg Seen.request hseen)
    have hsuccess : ((w.system.threads[2]?).any fun t => succeeded t.program) = true :=
      congrArg Seen.succeeded hseen
    rw [ht] at hsuccess
    have hexpected := (hkept 2 _ t (congrArg Seen.last hseen) ht).2 (succeeded_iff.mp hsuccess)
      (congrArg Seen.lost hseen)
    rw [hstored, hrequest] at hexpected
    exact absurd hexpected (by decide)
  · have h : (exec (fun w m => if polled w (w.choose m) then w.step (w.choose m) else none)
        (.idle initialSettings []) (pollWhileConnecting.map .inl)).map (·.seen 0) = some
          ⟨some (0, .connecting), (.connected, some .wireguard, some "home"), false,
            some (.connectWireguard "home"), false, true⟩ := by
      decide +kernel
    obtain ⟨w, hrun, hseen⟩ := Run.of_strategy hpolled h
    have hstored : w.system.shared.settings.stored = (.connected, some .wireguard, some "home") :=
      congrArg Seen.stored hseen
    refine ⟨w, hrun, fun hkept => ?_, congrArg Prod.fst hstored⟩
    obtain ⟨t, ht, -⟩ := Option.map_eq_some_iff.mp (congrArg Seen.request hseen)
    have hon : ((w.system.threads[0]?).any fun t => goesOn t.program) = true :=
      congrArg Seen.goesOn hseen
    rw [ht] at hon
    have hexpected := (hkept 0 _ t (congrArg Seen.last hseen) ht).1 rfl (running_of_goesOn hon)
    exact absurd ((congrArg Prod.fst hstored).symm.trans hexpected) (by decide)

end IptvProxy.Vpn
