import IptvProxy.Lib.Agents
import IptvProxy.Lib.Transition
import IptvProxy.Vpn.Manager

/-!
# Requests side by side

Any number of requests, whose commands come in any order. A thread keeps, as history, the phase it
is in: whether it has the lock and what it has stopped since, or whether it is a rotation that has
found WARP connected and is going to connect it again.
-/

namespace IptvProxy.Vpn

open Agents Effect

/-- Where a request is. -/
inductive Phase where
  /-- without the lock, after so many looks at WARP -/
  | looked (n : ℕ)
  /-- a rotation on its way from finding WARP connected to connecting it again -/
  | rotating
  /-- with the lock; a connect operation has stopped these tunnels -/
  | locked (cleared : List Tunnel)
  deriving DecidableEq

/-- The phase after an answer. The third look of a rotation decides whether it reconnects; it gives
up with an error entry in the log. -/
def Phase.next (r : Request) (p : Phase) : (c : Cmd) → c.Answer → Phase
  | .wait, _ => .locked []
  | .leave, _ => .looked 0
  | .stop t, _ =>
    match p with
    | .locked cleared => if r.target = none then p else .locked (t :: cleared)
    | _ => p
  | .warpStatus, status =>
    match p with
    | .looked n =>
      if r = .rotate ∧ n = 2 ∧ status.connected = true then .rotating else .looked (n + 1)
    | _ => p
  | .start _, _ => if p = .rotating then .looked 3 else p
  | .log level _ _, _ => if p = .rotating ∧ level = .error then .looked 3 else p
  | _, _ => p

/-- Which commands a request issues where. -/
def Phase.allows (r : Request) (p : Phase) : Cmd → Prop
  | .leave => ∃ cleared, p = .locked cleared
  | .start t =>
    p = .rotating ∧ t = .warp ∨
      ∃ cleared, p = .locked cleared ∧ r.target = some t ∧ ∀ u, u ≠ t → u ∈ cleared
  | _ => True

/-- The discipline of request `r`. -/
def discipline (r : Request) : Protocol Cmd Cmd.Answer Phase :=
  ⟨Phase.allows r, fun p c x => some (p.next r c x)⟩

/-- A request under way. -/
structure Thread where
  /-- the request -/
  request : Request
  /-- *history*: its phase -/
  phase : Phase
  /-- what is left of its program -/
  program : Op Result

/-- The state and the requests. -/
structure System where
  /-- what they share -/
  shared : State
  /-- the requests -/
  threads : List Thread

/-- The settings before the first connection. -/
def initialSettings : Settings := ⟨none, none, none, .off, none, none, none, none⟩

/-- No tunnel is up, and nobody has the lock. -/
def State.idle (settings : Settings) (bypass : List String) : State :=
  ⟨fun _ => .down, bypass, settings, none, [], []⟩

/-- What happens next. -/
inductive Action where
  /-- a request comes in; its loops have so many rounds -/
  | request (r : Request) (rounds : ℕ)
  /-- the next command of request `i`; the answers are there for every command -/
  | run (i : ℕ) (answer : (c : Cmd) → c.Answer)
  /-- a tunnel that is on its way comes up or fails -/
  | settle (t : Tunnel) (up : Bool)

/-- The next command of a thread. -/
def Thread.step (s : System) (i : ℕ) (t : Thread) (answer : (c : Cmd) → c.Answer) :
    Option System :=
  match t.program with
  | .call c k => (effect i s.shared c (answer c)).map fun shared =>
    ⟨shared, s.threads.set i ⟨t.request, t.phase.next t.request c (answer c), k (answer c)⟩⟩
  | .pure _ => none
  | .throw _ => none

/-- The step function. -/
def step (s : System) : Action → Option System
  | .request r rounds => some { s with threads := s.threads ++ [⟨r, .looked 0, r.program rounds⟩] }
  | .run i answer => s.threads[i]?.bind fun t => t.step s i answer
  | .settle t up =>
    if s.shared.level t = .starting then
      some { s with shared := s.shared.setLevel t (if up then .up else .down) }
    else none

/-! ## The requests keep to their discipline -/

/-- Commands that neither start a tunnel nor deal with the lock. -/
def Cmd.plain : Cmd → Bool
  | .wait => false
  | .leave => false
  | .start _ => false
  | _ => true

/-- A set of phases that plain commands do not leave. -/
def Closed (r : Request) (I : Phase → Prop) : Prop :=
  ∀ p, I p → ∀ (c : Cmd) x, c.plain = true → I (p.next r c x)

section Plain

variable {r : Request} {I : Phase → Prop} {p : Phase} {rounds : ℕ}
  {source category label : String} {level : LogLevel} {own : Tunnel}

theorem within_orThrow {α : Type} {x : Except String α} : Within (discipline r) I (orThrow x) := by
  cases x
  · exact .throw
  · exact .pure

theorem within_orFail {x : Option String} : Within (discipline r) I (orFail x) := by
  cases x
  · exact .pure
  · exact .throw

variable (hI : Closed r I)

include hI

theorem within_plain {c : Cmd} (hc : c.plain = true) : Within (discipline r) I (perform c) := by
  apply Within.perform
  · rintro p -
    cases c <;> trivial
  · rintro p x _ hp ⟨⟩
    exact hI p hp c x hc

theorem within_log : Within (discipline r) I (log level source category) :=
  (within_plain hI rfl).bind fun _ => within_orThrow

theorem within_getSettings : Within (discipline r) I getSettings :=
  (within_plain hI rfl).bind fun _ => within_orThrow

theorem within_updateVpnState {patch : Settings → Settings} :
    Within (discipline r) I (updateVpnState patch) :=
  (within_plain hI rfl).bind fun _ => within_orThrow

theorem within_getRuntimeTunnels : Within (discipline r) I getRuntimeTunnels := by
  have hothers : ∀ first, Within (discipline r) I (lookAtOthers first) := by
    rintro (_ | _)
    · exact (within_plain hI rfl).bind fun _ => (within_plain hI rfl).bind fun _ => .pure
    · exact (within_plain hI rfl).bind fun _ => (within_plain hI rfl).bind fun _ => .pure
  exact (within_plain hI rfl).bind fun _ => (within_plain hI rfl).bind fun first =>
    (hothers first).bind fun _ => .pure

theorem within_correct {patch : Settings → Settings} : Within (discipline r) I (do
    updateVpnState patch
    log .warn "vpn" "reconcile"
    getSettings) :=
  (within_updateVpnState hI).bind fun _ => (within_log hI).bind fun _ => within_getSettings hI

theorem within_reconcileRuntimeState : Within (discipline r) I reconcileRuntimeState := by
  refine (within_getSettings hI).bind fun current => ?_
  refine (within_getRuntimeTunnels hI).bind fun runtime => ?_
  split
  · exact .ite (within_correct hI) .pure
  · refine .ite ?_ .pure
    exact (within_plain hI rfl).bind fun _ => (within_plain hI rfl).bind fun _ =>
      within_correct hI
  · exact within_correct hI

theorem within_assertCanStartConnection : Within (discipline r) I assertCanStartConnection := by
  refine (within_reconcileRuntimeState hI).bind fun _ => ?_
  refine (within_getRuntimeTunnels hI).bind fun _ => ?_
  exact .ite .throw (.ite .throw .pure)

theorem within_stopAllTunnels : Within (discipline r) I stopAllTunnels :=
  (within_plain hI rfl).bind fun _ => (within_plain hI rfl).bind fun _ =>
    (within_plain hI rfl).bind fun _ => .pure

theorem within_prepareBypassRouting : Within (discipline r) I prepareBypassRouting := by
  have hinstall : Within (discipline r) I installBypassRouting :=
    (within_plain hI rfl).bind fun _ => (within_plain hI rfl).bind fun _ =>
      within_orFail.bind fun _ => within_log hI
  refine hinstall.attempt.bind fun result => ?_
  split
  · exact .pure
  · exact (within_log hI).bind fun _ => .throw

theorem within_awaitOpenvpn : Within (discipline r) I (awaitOpenvpn rounds) := by
  induction rounds with
  | zero => exact .pure
  | succ rounds ih =>
    refine (within_plain hI rfl).bind fun _ => ?_
    split
    · exact .pure
    · exact .pure
    · exact ih

theorem within_register : Within (discipline r) I register := by
  have hcreate : Within (discipline r) I createRegistration :=
    (within_plain hI rfl).bind fun _ => within_orThrow.bind fun _ =>
      (within_plain hI rfl).bind fun _ => within_log hI
  refine .bind ((within_plain hI rfl).bind fun _ => .ite .pure .throw) fun _ => ?_
  refine (within_plain hI rfl).bind fun _ => .ite .pure ?_
  refine hcreate.attempt.bind fun result => ?_
  split
  · exact .pure
  · exact (within_log hI).bind fun _ => .throw

theorem within_awaitWarp : Within (discipline r) I (awaitWarp rounds) := by
  induction rounds with
  | zero => exact .throw
  | succ rounds ih => exact (within_plain hI rfl).bind fun _ => .ite .pure ih

theorem within_verifyWireguard {baseline ipInfo : Option IpInfo} {handshake : Bool} :
    Within (discipline r) I (verifyWireguard baseline rounds ipInfo handshake) := by
  induction rounds generalizing ipInfo handshake with
  | zero => exact .pure
  | succ rounds ih =>
    exact (within_plain hI rfl).bind fun _ => (within_plain hI rfl).bind fun _ => .ite .pure ih

theorem within_connectFailed {profileId : Option String} {e : Failure} :
    Within (discipline r) I (connectFailed source own profileId label e) := by
  cases e <;> unfold connectFailed
  case connecting => exact (within_log hI).bind fun _ => .pure
  case connected => exact (within_log hI).bind fun _ => .pure
  all_goals
    exact (within_plain hI rfl).bind fun _ => (within_plain hI rfl).bind fun _ =>
      (within_updateVpnState hI).bind fun _ => (within_log hI).bind fun _ => .pure

theorem within_profileName {settings : Settings} :
    Within (discipline r) I (profileName settings) := by
  unfold profileName
  split
  · exact .pure
  · exact (within_plain hI rfl).bind fun _ => within_orThrow.bind fun _ => .pure
  · exact .ite .pure ((within_plain hI rfl).bind fun _ => within_orThrow.bind fun _ => .pure)
  · exact .pure
  · exact .pure

theorem within_getVpnStatusSummary : Within (discipline r) I getVpnStatusSummary :=
  (within_reconcileRuntimeState hI).bind fun _ => (within_profileName hI).bind fun _ => .pure

theorem within_assertIdle : Within (discipline r) I assertIdle :=
  (within_plain hI rfl).bind fun _ => .ite .throw .pure

theorem within_registerRequest : Within (discipline r) I registerRequest := by
  refine .bind ?_ fun _ => (within_register hI).bind fun _ => (within_plain hI rfl).bind fun _ => .pure
  refine (within_assertIdle hI).bind fun _ => (within_getVpnStatusSummary hI).bind fun _ => ?_
  exact .ite .throw ((within_plain hI rfl).bind fun _ => .ite .throw .pure)

omit hI in
theorem within_requireProfile {kind : String} {found : Except String (Option Profile)} :
    Within (discipline r) I (requireProfile kind found) := by
  refine within_orThrow.bind fun profile => ?_
  split
  · exact .throw
  · exact .ite .throw .pure

theorem within_requireServer {serverId : String} :
    Within (discipline r) I (requireServer serverId) := by
  refine (within_plain hI rfl).bind fun _ => within_orThrow.bind fun server => ?_
  split
  · exact .throw
  · exact .pure

theorem within_disconnectTunnels : Within (discipline r) I disconnectTunnels :=
  (within_getSettings hI).bind fun _ =>
    .bind (.ite (within_log hI) .pure) fun _ => (within_stopAllTunnels hI).bind fun _ =>
      (within_plain hI rfl).bind fun _ => (within_updateVpnState hI).bind fun _ => within_log hI

end Plain

/-! ### Under the lock -/

/-- The lock is held, and at least these tunnels have been stopped. -/
def Holding (cleared : List Tunnel) (p : Phase) : Prop :=
  ∃ stopped, p = .locked stopped ∧ ∀ t ∈ cleared, t ∈ stopped

section Locked

variable {r : Request} {cleared : List Tunnel} {rounds : ℕ} {own : Tunnel}

theorem holding_closed : Closed r (Holding cleared) := by
  rintro _ ⟨stopped, rfl, hsub⟩ c x hc
  cases c with
  | stop t =>
    rw [Phase.next]
    split
    · exact ⟨stopped, rfl, hsub⟩
    · exact ⟨t :: stopped, rfl, fun u hu => List.mem_cons_of_mem _ (hsub u hu)⟩
  | wait => cases hc
  | leave => cases hc
  | start t => cases hc
  | log level _ _ => exact ⟨stopped, rfl, hsub⟩
  | _ => exact ⟨stopped, rfl, hsub⟩

/-- Every tunnel but that of the operation has been stopped. -/
def Ready (r : Request) (own : Tunnel) (cleared : List Tunnel) : Prop :=
  r.target = some own ∧ ∀ t, t ≠ own → t ∈ cleared

theorem within_start (h : Ready r own cleared) :
    Within (discipline r) (Holding cleared) (perform (.start own)) := by
  apply Within.perform
  · rintro _ ⟨stopped, rfl, hsub⟩
    exact .inr ⟨stopped, rfl, h.1, fun t ht => hsub t (h.2 t ht)⟩
  · rintro _ _ _ ⟨stopped, rfl, hsub⟩ ⟨⟩
    exact ⟨stopped, rfl, hsub⟩

theorem within_startWireguard (h : Ready r .wireguard cleared) :
    Within (discipline r) (Holding cleared) startWireguard := by
  have hconfigure : Within (discipline r) (Holding cleared) configureWireguard :=
    (within_plain holding_closed rfl).bind fun _ => (within_plain holding_closed rfl).bind fun _ =>
      within_orThrow.bind fun _ => (within_start h).bind fun _ => within_orFail.bind fun _ =>
        (within_plain holding_closed rfl).bind fun _ => within_orThrow.bind fun _ =>
          within_log holding_closed
  refine hconfigure.attempt.bind fun result => ?_
  split
  · exact .pure
  · exact (within_plain holding_closed rfl).bind fun _ => .pure

theorem within_startOpenvpn (h : Ready r .openvpn cleared) :
    Within (discipline r) (Holding cleared) (startOpenvpn rounds) := by
  refine (within_start h).bind fun spawned => ?_
  split
  · exact .pure
  · exact within_awaitOpenvpn holding_closed

theorem within_startWarp (h : Ready r .warp cleared) :
    Within (discipline r) (Holding cleared) (startWarp rounds) := by
  have hdaemon : Within (discipline r) (Holding cleared) (requireDaemon "warp-svc is unavailable.") :=
    (within_plain holding_closed rfl).bind fun _ => .ite .pure .throw
  have hregistered : Within (discipline r) (Holding cleared) ensureRegistered :=
    (within_plain holding_closed rfl).bind fun _ => .ite .pure (within_register holding_closed)
  have hconnect : Within (discipline r) (Holding cleared) (connectWarpClient rounds) :=
    hdaemon.bind fun _ => hregistered.bind fun _ => (within_plain holding_closed rfl).bind fun _ =>
      (within_start h).bind fun _ => within_orFail.bind fun _ => within_awaitWarp holding_closed
  refine hconnect.attempt.bind fun result => ?_
  split
  · exact .pure
  · exact .pure

theorem within_establishWireguard {baseline : Option IpInfo} (h : Ready r .wireguard cleared) :
    Within (discipline r) (Holding cleared) (establishWireguard rounds baseline) := by
  refine (within_startWireguard h).bind fun _ => within_orFail.bind fun _ => ?_
  refine (within_verifyWireguard holding_closed).bind fun verified => ?_
  refine (within_plain holding_closed rfl).bind fun _ => .ite .throw ?_
  split
  · exact .throw
  · exact .ite .throw .pure

theorem within_establishOpenvpn {gone unverified : String} {fallback : Option String}
    (h : Ready r .openvpn cleared) :
    Within (discipline r) (Holding cleared)
      (establishOpenvpn rounds gone unverified fallback) := by
  refine (within_startOpenvpn h).bind fun _ => within_orFail.bind fun _ => ?_
  refine (within_plain holding_closed rfl).bind fun _ => .ite .throw ?_
  refine (within_plain holding_closed rfl).bind fun seen => ?_
  split
  · exact .throw
  · exact .pure

theorem within_establishWarp (h : Ready r .warp cleared) :
    Within (discipline r) (Holding cleared) (establishWarp rounds) := by
  refine (within_startWarp h).bind fun _ => within_orFail.bind fun _ => ?_
  refine (within_plain holding_closed rfl).bind fun _ => .ite .throw ?_
  refine (within_plain holding_closed rfl).bind fun seen => ?_
  split
  · exact .throw
  · exact .pure

/-- The tunnels, in the order in which they are stopped last. -/
def allTunnels : List Tunnel := [.warp, .openvpn, .wireguard]

theorem mem_allTunnels (t : Tunnel) : t ∈ allTunnels := by
  cases t <;> decide

/-- The three stops of a connect operation. -/
theorem follows_stopAllTunnels {p : Phase} (hr : r.target ≠ none) (hp : Holding [] p) :
    Follows (discipline r) stopAllTunnels p (fun _ => Holding allTunnels)
      (fun _ => Holding []) := by
  obtain ⟨stopped, rfl, -⟩ := hp
  refine follows_bind.mpr ⟨trivial, ?_⟩
  rintro _ _ ⟨⟩
  refine follows_bind.mpr ⟨trivial, ?_⟩
  rintro _ _ ⟨⟩
  refine follows_bind.mpr ⟨trivial, ?_⟩
  rintro _ _ ⟨⟩
  simp only [Phase.next, hr, if_false]
  refine ⟨_, rfl, fun t _ => ?_⟩
  cases t <;> simp

theorem follows_prepareForConnection {p : Phase} (hr : r.target ≠ none) (hp : Holding [] p) :
    Follows (discipline r) prepareForConnection p (fun _ => Holding allTunnels)
      (fun _ => Holding []) := by
  have hforget : ∀ q, Holding allTunnels q → Holding [] q := by
    rintro _ ⟨stopped, rfl, -⟩
    exact ⟨stopped, rfl, fun t ht => (by cases ht)⟩
  refine follows_bind.mpr ((follows_stopAllTunnels hr hp).mono (fun _ q hq => ?_) fun _ _ hq => hq)
  refine Within.follows ?_ hq (fun _ _ hq => hq) fun _ q hq => hforget q hq
  exact (within_plain holding_closed rfl).bind fun _ => (within_plain holding_closed rfl).bind fun _ =>
    (within_prepareBypassRouting holding_closed).bind fun _ => .pure

variable {source label : String} {profileId : Option String}
  {establish : Option IpInfo → Op (String × Option String)}

theorem within_connectTunnel (hr : r.target = some own)
    (h : ∀ baseline, Within (discipline r) (Holding allTunnels) (establish baseline)) :
    Within (discipline r) (Holding []) (connectTunnel source own profileId label establish) := by
  have hforget : ∀ q, Holding allTunnels q → Holding [] q := by
    rintro _ ⟨stopped, rfl, -⟩
    exact ⟨stopped, rfl, fun t ht => (by cases ht)⟩
  have hbringUp : Within (discipline r) (Holding []) (bringUp source own profileId label establish) := by
    refine (within_assertCanStartConnection holding_closed).bind fun _ => ?_
    refine (within_log holding_closed).bind fun _ => fun p hp => ?_
    have hprepare := follows_prepareForConnection (r := r) (by rw [hr]; rintro ⟨⟩) hp
    refine follows_bind.mpr (hprepare.mono (fun baseline q hq => ?_) fun _ _ hq => hq)
    refine Within.follows ?_ hq (fun _ q hq => hforget q hq) fun _ q hq => hforget q hq
    exact (within_updateVpnState holding_closed).bind fun _ => (h baseline).bind fun _ =>
      (within_plain holding_closed rfl).bind fun _ =>
        (within_updateVpnState holding_closed).bind fun _ => within_log holding_closed
  refine hbringUp.attempt.bind fun result => ?_
  split
  · exact .pure
  · exact within_connectFailed holding_closed

/-- An operation that keeps the lock keeps to the discipline. -/
theorem follows_locked {α : Type} {m : Op α} (h : Within (discipline r) (Holding []) m) :
    Follows (discipline r) (locked m) (.looked 0) (fun _ _ => True) (fun _ _ => True) := by
  refine follows_bind.mpr ⟨trivial, ?_⟩
  rintro _ _ ⟨⟩
  refine ⟨trivial, ?_⟩
  rintro _ _ ⟨⟩
  refine follows_finallyDo.mpr (h.follows ⟨[], rfl, fun t ht => (by cases ht)⟩ ?_ ?_)
  · rintro _ _ ⟨stopped, rfl, -⟩
    exact ⟨⟨stopped, rfl⟩, fun _ _ _ => trivial⟩
  · rintro _ _ ⟨stopped, rfl, -⟩
    exact ⟨⟨stopped, rfl⟩, fun _ _ _ => trivial⟩

end Locked

/-! ### Without the lock -/

/-- No lock, and the request is not a rotation. -/
def Unlocked (p : Phase) : Prop := ∃ n, p = .looked n

theorem unlocked_closed {r : Request} (hr : r ≠ .rotate) : Closed r Unlocked := by
  rintro _ ⟨n, rfl⟩ c x hc
  cases c with
  | warpStatus =>
    simp only [Phase.next, hr, false_and, if_false]
    exact ⟨n + 1, rfl⟩
  | stop t => exact ⟨n, rfl⟩
  | log level _ _ => exact ⟨n, rfl⟩
  | wait => cases hc
  | leave => cases hc
  | start t => cases hc
  | _ => exact ⟨n, rfl⟩

/-- A rotation after its third look. -/
def Late (p : Phase) : Prop := p = .rotating ∨ ∃ n, p = .looked (n + 3)

theorem late_closed : Closed .rotate Late := by
  rintro _ (rfl | ⟨n, rfl⟩) c x hc
  · cases c with
    | log level _ _ =>
      rw [Phase.next]
      split
      · exact .inr ⟨0, rfl⟩
      · exact .inl rfl
    | wait => cases hc
    | leave => cases hc
    | start t => cases hc
    | _ => exact .inl rfl
  · cases c with
    | warpStatus =>
      simp only [Phase.next]
      rw [if_neg (by omega)]
      exact .inr ⟨n + 1, rfl⟩
    | wait => cases hc
    | leave => cases hc
    | start t => cases hc
    | _ => exact .inr ⟨n, rfl⟩

section Rotate

variable {rounds : ℕ}

/-- A rotation that is going to reconnect gets a new registration. -/
theorem follows_register_rotating :
    Follows (discipline .rotate) register .rotating (fun _ q => q = .rotating) (fun _ => Late) := by
  have hcreate : Follows (discipline .rotate) createRegistration .rotating
      (fun _ q => q = .rotating) (fun _ q => q = .rotating) := by
    simp [createRegistration, log, discipline, Phase.allows, Phase.next]
  refine follows_bind.mpr (follows_bind.mpr ⟨trivial, ?_⟩)
  rintro daemon _ ⟨⟩
  refine follows_ite.mpr ⟨fun _ => follows_bind.mpr ⟨trivial, ?_⟩, fun _ => .inl rfl⟩
  rintro status _ ⟨⟩
  refine follows_ite.mpr ⟨fun _ => rfl, fun _ => ?_⟩
  refine follows_bind.mpr (follows_attempt.mpr (hcreate.mono ?_ ?_))
  · rintro _ _ rfl
    rfl
  · rintro e _ rfl
    have hlog : Within (discipline .rotate) Late (log .error "warp" "registration") :=
      within_log late_closed
    exact follows_bind.mpr (hlog.follows (.inl rfl) (fun _ _ hq => hq) fun _ _ hq => hq)

/-- It connects WARP again. -/
theorem follows_startWarp_rotating :
    Follows (discipline .rotate) (startWarp rounds) .rotating (fun _ => Late) (fun _ => Late) := by
  have hregistered : Follows (discipline .rotate) ensureRegistered .rotating
      (fun _ q => q = .rotating) (fun _ => Late) := by
    refine follows_bind.mpr ⟨trivial, ?_⟩
    rintro status _ ⟨⟩
    exact follows_ite.mpr ⟨fun _ => rfl, fun _ => follows_register_rotating⟩
  have hconnect : Follows (discipline .rotate) (connectWarpClient rounds) .rotating
      (fun _ => Late) (fun _ => Late) := by
    refine follows_bind.mpr (follows_bind.mpr ⟨trivial, ?_⟩)
    rintro daemon _ ⟨⟩
    refine follows_ite.mpr ⟨fun _ => ?_, fun _ => .inl rfl⟩
    refine follows_bind.mpr (hregistered.mono ?_ fun _ _ hq => hq)
    rintro _ _ rfl
    refine follows_bind.mpr ⟨trivial, ?_⟩
    rintro _ _ ⟨⟩
    refine follows_bind.mpr ⟨.inl ⟨rfl, rfl⟩, ?_⟩
    rintro started _ ⟨⟩
    have hrest : Within (discipline .rotate) Late (do
        orFail started.error
        awaitWarp rounds) := within_orFail.bind fun _ => within_awaitWarp late_closed
    exact hrest _ (.inr ⟨0, rfl⟩)
  refine follows_bind.mpr (follows_attempt.mpr (hconnect.mono ?_ ?_))
  · exact fun _ _ hq => hq
  · exact fun _ _ hq => hq

theorem follows_rotateRegistration (wasConnected : Bool) :
    Follows (discipline .rotate) (rotateRegistration rounds wasConnected)
      (if wasConnected then .rotating else .looked 3) (fun _ => Late) (fun _ => Late) := by
  cases wasConnected with
  | false =>
    have hrenew : Within (discipline .rotate) Late renewRegistration :=
      (within_plain late_closed rfl).bind fun _ => within_register late_closed
    exact (hrenew.bind fun _ => within_log late_closed) _ (.inr ⟨0, rfl⟩)
  | true =>
    refine follows_bind.mpr ⟨trivial, ?_⟩
    rintro _ _ ⟨⟩
    refine follows_bind.mpr (follows_bind.mpr ⟨trivial, ?_⟩)
    rintro _ _ ⟨⟩
    refine follows_register_rotating.mono ?_ fun _ _ hq => hq
    rintro _ _ rfl
    refine follows_bind.mpr (follows_startWarp_rotating.mono (fun error q hq => ?_) fun _ _ hq => hq)
    exact (within_orFail.bind fun _ => within_log late_closed) q hq

/-- The third look of a rotation decides. -/
theorem follows_rotate :
    Follows (discipline .rotate) (rotate rounds) (.looked 2) (fun _ => Late)
      (fun _ q => Late q ∨ q = .looked 2) := by
  refine follows_bind.mpr (follows_bind.mpr ⟨trivial, ?_⟩)
  rintro daemon _ ⟨⟩
  refine follows_ite.mpr ⟨fun _ => ?_, fun _ => .inr rfl⟩
  refine follows_bind.mpr ⟨trivial, ?_⟩
  rintro before _ ⟨⟩
  have hphase : Phase.next .rotate (.looked 2) .warpStatus before =
      if before.connected then .rotating else .looked 3 := by
    simp [Phase.next]
  change Follows _ (Program.pure before) (Phase.next .rotate (.looked 2) .warpStatus before) _ _
  rw [hphase]
  refine follows_bind.mpr (follows_attempt.mpr ((follows_rotateRegistration _).mono ?_ ?_))
  · exact fun _ _ hq => hq
  · refine fun e q hq => follows_bind.mpr ((within_log late_closed).follows hq ?_ ?_)
    · exact fun _ _ hq => .inl hq
    · exact fun _ _ hq => .inl hq

/-- The first look is in the status summary. -/
theorem follows_getRuntimeTunnels_rotate :
    Follows (discipline .rotate) getRuntimeTunnels (.looked 0) (fun _ q => q = .looked 1)
      (fun _ _ => False) := by
  have hothers : ∀ first, Follows (discipline .rotate) (lookAtOthers first) (.looked 0)
      (fun _ q => q = .looked 1) (fun _ _ => False) := by
    rintro (_ | _) <;> simp [lookAtOthers, discipline, Phase.allows, Phase.next]
  refine follows_bind.mpr ⟨trivial, ?_⟩
  rintro _ _ ⟨⟩
  refine follows_bind.mpr ⟨trivial, ?_⟩
  rintro first _ ⟨⟩
  exact follows_bind.mpr (hothers first)

/-- What does not look at WARP keeps the number of looks. -/
theorem follows_correct_rotate {n : ℕ} {patch : Settings → Settings} :
    Follows (discipline .rotate) (do
      updateVpnState patch
      log .warn "vpn" "reconcile"
      getSettings) (.looked n) (fun _ q => q = .looked n) (fun _ q => q = .looked n) := by
  simp [updateVpnState, log, getSettings, discipline, Phase.allows, Phase.next]

theorem follows_getVpnStatusSummary_rotate :
    Follows (discipline .rotate) getVpnStatusSummary (.looked 0) (fun _ q => q = .looked 1)
      (fun _ _ => True) := by
  have hname : ∀ settings, Follows (discipline .rotate) (profileName settings) (.looked 1)
      (fun _ q => q = .looked 1) (fun _ _ => True) := by
    intro settings
    unfold profileName
    split <;> simp [discipline, Phase.allows, Phase.next]
  have hreconcile : Follows (discipline .rotate) reconcileRuntimeState (.looked 0)
      (fun _ q => q = .looked 1) (fun _ _ => True) := by
    refine follows_bind.mpr ?_
    have hsettings : Follows (discipline .rotate) getSettings (.looked 0)
        (fun _ q => q = .looked 0) (fun _ _ => True) := by
      simp [getSettings, discipline, Phase.allows, Phase.next]
    refine hsettings.mono ?_ fun _ _ _ => trivial
    rintro current _ rfl
    refine follows_bind.mpr (follows_getRuntimeTunnels_rotate.mono ?_ fun _ _ hq => hq.elim)
    rintro runtime _ rfl
    split
    · exact follows_ite.mpr
        ⟨fun _ => follows_correct_rotate.mono (fun _ _ hq => hq) fun _ _ _ => trivial, fun _ => rfl⟩
    · refine follows_ite.mpr ⟨fun _ => ?_, fun _ => rfl⟩
      refine follows_bind.mpr ⟨trivial, ?_⟩
      rintro _ _ ⟨⟩
      refine follows_bind.mpr ⟨trivial, ?_⟩
      rintro _ _ ⟨⟩
      exact follows_correct_rotate.mono (fun _ _ hq => hq) fun _ _ _ => trivial
    · exact follows_correct_rotate.mono (fun _ _ hq => hq) fun _ _ _ => trivial
  refine follows_bind.mpr (hreconcile.mono ?_ fun _ _ hq => hq)
  rintro settings _ rfl
  refine follows_bind.mpr ((hname settings).mono ?_ fun _ _ hq => hq)
  rintro name _ rfl
  rfl

theorem follows_assertRotateAllowed :
    Follows (discipline .rotate) assertRotateAllowed (.looked 0) (fun _ q => q = .looked 2)
      (fun _ _ => True) := by
  refine follows_bind.mpr (follows_bind.mpr ⟨trivial, ?_⟩)
  rintro busy _ ⟨⟩
  refine follows_ite.mpr ⟨fun _ => trivial, fun _ => ?_⟩
  refine follows_bind.mpr (follows_getVpnStatusSummary_rotate.mono ?_ fun _ _ hq => hq)
  rintro before _ rfl
  simp [discipline, Phase.allows, Phase.next]

theorem follows_rotateRequest :
    Follows (discipline .rotate) (rotateRequest rounds) (.looked 0) (fun _ _ => True)
      (fun _ _ => True) := by
  refine follows_bind.mpr (follows_assertRotateAllowed.mono ?_ fun _ _ hq => hq)
  rintro _ _ rfl
  refine follows_bind.mpr (follows_rotate.mono (fun reconnected q hq => ?_) fun _ _ _ => trivial)
  have hrecord : Within (discipline .rotate) Late recordReconnected :=
    (within_plain late_closed rfl).bind fun _ => (within_plain late_closed rfl).bind fun _ =>
      (within_updateVpnState late_closed).bind fun _ =>
        (within_getVpnStatusSummary late_closed).bind fun _ => .pure
  have hrest : Within (discipline .rotate) Late
      (if reconnected then recordReconnected else do let _ ← perform .warpStatus) :=
    .ite hrecord ((within_plain late_closed rfl).bind fun _ => .pure)
  exact hrest.follows hq (fun _ _ _ => trivial) fun _ _ _ => trivial

end Rotate

/-- **The discipline.** Every request keeps to it: it releases the lock only if it has it, and it
starts a tunnel only if it has the lock and has stopped the others, or if it is a rotation that has
found WARP connected. -/
theorem follows_program (r : Request) (rounds : ℕ) :
    Follows (discipline r) (r.program rounds) (.looked 0) (fun _ _ => True) (fun _ _ => True) := by
  have hready : ∀ {own : Tunnel}, r.target = some own → Ready r own allTunnels :=
    fun hr => ⟨hr, fun t _ => mem_allTunnels t⟩
  cases r with
  | connectWireguard profileId =>
    refine follows_locked ((within_plain holding_closed rfl).bind fun found => ?_)
    refine within_requireProfile.attempt.bind fun result => ?_
    split
    · exact within_connectFailed holding_closed
    · exact within_connectTunnel rfl fun _ => within_establishWireguard (hready rfl)
  | connectOpenvpn profileId =>
    refine follows_locked ((within_plain holding_closed rfl).bind fun found => ?_)
    refine within_requireProfile.attempt.bind fun result => ?_
    split
    · exact within_connectFailed holding_closed
    · exact within_connectTunnel rfl fun _ => within_establishOpenvpn (hready rfl)
  | connectVpnGateServer serverId =>
    refine follows_locked ((within_requireServer holding_closed).attempt.bind fun result => ?_)
    split
    · exact within_connectFailed holding_closed
    · refine (within_plain holding_closed rfl).bind fun decoded => ?_
      split
      · exact within_connectFailed holding_closed
      · exact within_connectTunnel rfl fun _ => within_establishOpenvpn (hready rfl)
  | connectWarp =>
    exact follows_locked (within_connectTunnel rfl fun _ => within_establishWarp (hready rfl))
  | disconnect =>
    refine follows_locked ((within_disconnectTunnels holding_closed).attempt.bind fun result => ?_)
    split
    · exact .pure
    · exact (within_log holding_closed).bind fun _ => .pure
  | register =>
    have hclosed := unlocked_closed (r := .register) (by decide)
    exact ((within_registerRequest hclosed).bind fun _ => .pure).follows ⟨0, rfl⟩
      (fun _ _ _ => trivial) fun _ _ _ => trivial
  | rotate => exact follows_bind.mpr follows_rotateRequest
  | status =>
    have hclosed := unlocked_closed (r := .status) (by decide)
    exact ((within_getVpnStatusSummary hclosed).bind fun _ => .pure).follows ⟨0, rfl⟩
      (fun _ _ _ => trivial) fun _ _ _ => trivial

end IptvProxy.Vpn
