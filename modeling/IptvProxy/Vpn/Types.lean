import Mathlib.Data.Int.Notation
import IptvProxy.Lib.Program

/-!
# VPN tunnels

The state that `src/lib/services/vpn` works on, and the commands it issues: every command is a
point at which another operation may go on. What a command finds out is its answer; `effect` says
which answers are possible and what the command does.

Of a row of `app_settings` the VPN fields are modelled. Log entries have no message, and the
repetition filter of `warnReconcileOnce` is an entry like any other. The parts of a tunnel's
configuration are left out, so are profiles but for the fields that are read.
-/

namespace IptvProxy.Vpn

open Effect

/-- `RuntimeTunnel`; a `VpnType` is an `Option Tunnel`, with `none` for `'off'`. -/
inductive Tunnel where
  | wireguard
  | openvpn
  | warp
  deriving DecidableEq

/-- The text of a `VpnType`. -/
def Tunnel.text : Tunnel → String
  | wireguard => "wireguard"
  | openvpn => "openvpn"
  | warp => "warp"

/-- `VpnStatus` -/
inductive VpnStatus where
  | off
  | connecting
  | connected
  | error
  deriving DecidableEq

/-- `AppSettings` -/
structure Settings where
  /-- `active_vpn_type` -/
  activeVpnType : Option Tunnel
  /-- `active_vpn_profile_id` -/
  activeVpnProfileId : Option String
  /-- `active_vpn_label` -/
  activeVpnLabel : Option String
  /-- `vpn_status` -/
  vpnStatus : VpnStatus
  /-- `vpn_last_error` -/
  vpnLastError : Option String
  /-- `vpn_connected_at` -/
  vpnConnectedAt : Option String
  /-- `vpn_public_ip` -/
  vpnPublicIp : Option String
  /-- `vpn_country` -/
  vpnCountry : Option String
  deriving DecidableEq

/-- How far a tunnel is: a process or a daemon that has been told to connect is on its way. -/
inductive Level where
  | down
  | starting
  | up
  deriving DecidableEq

/-- What the environment sees of a look or a stop. -/
inductive Event where
  /-- a status query, and whether it reports the tunnel -/
  | look (t : Tunnel) (seen : Bool)
  /-- a stop command, and whether the tunnel is down after it -/
  | stop (t : Tunnel) (stopped : Bool)
  deriving DecidableEq

/-- What the operations share. -/
structure State where
  /-- the tunnels -/
  level : Tunnel → Level
  /-- the rules and the routes of the bypass table -/
  bypass : List String
  /-- the stored settings -/
  settings : Settings
  /-- who has the lock -/
  holder : Option ℕ
  /-- who waits for it -/
  queue : List ℕ
  /-- *history*: looks and stops -/
  history : List Event

/-- `VpnPublicIpInfo`; `loc` is not read. -/
structure IpInfo where
  /-- `ip` -/
  ip : String
  /-- `country`, if it is not empty -/
  country : Option String

/-- A profile of WireGuard or OpenVPN. -/
structure Profile where
  /-- `name` -/
  name : String
  /-- `enabled` -/
  enabled : ℤ

/-- `VpnGateServer` -/
structure VpnGateServer where
  /-- `ip` -/
  ip : String
  /-- `countryShort` -/
  countryShort : String

/-- `WarpStatusResult` -/
structure WarpStatus where
  /-- `registered` -/
  registered : Bool
  /-- `connected` -/
  connected : Bool

/-- What a command that stops a tunnel reports, and whether the tunnel is down after a failure. -/
structure Stopped where
  /-- the error -/
  error : Option String
  /-- not known to the program -/
  down : Bool

/-- What a command that starts a tunnel reports, and whether it has begun after a failure. -/
structure Started where
  /-- the error -/
  error : Option String
  /-- not known to the program -/
  begun : Bool

/-- What the installation of the bypass routes reports, and what is installed after it. -/
structure Installed where
  /-- the error -/
  error : Option String
  /-- not known to the program -/
  rules : List String

/-- What a look at the log and the process of OpenVPN finds. -/
inductive OpenvpnPoll where
  /-- `Initialization Sequence Completed` -/
  | ready
  /-- an error, or the process is gone -/
  | failed (error : String)
  /-- nothing yet -/
  | again

/-- Why an operation fails. The first two are the `VpnConflictError`s. -/
inductive Failure where
  /-- another connection is being established -/
  | connecting
  /-- another connection is up -/
  | connected (label : String)
  /-- there is no such profile or server -/
  | notFound (message : String)
  /-- the profile is disabled -/
  | disabled (message : String)
  /-- another `Error` -/
  | other (message : String)

/-- `error.message` -/
def Failure.message : Failure → String
  | connecting => "A VPN connection is already being established. Wait for it to finish or disconnect it first."
  | connected label =>
    s!"{label} is already connected. Disconnect the current VPN before connecting another one."
  | notFound message => message
  | disabled message => message
  | other message => message

/-- `LogLevel` -/
inductive LogLevel where
  | debug
  | info
  | warn
  | error
  deriving DecidableEq

/-- The commands. -/
inductive Cmd where
  /-- the first part of `vpnLock.acquire` -/
  | enter
  /-- the wait in it -/
  | wait
  /-- `release` -/
  | leave
  /-- `vpnLock.isBusy` -/
  | isBusy
  /-- `SettingsService.getSettings` -/
  | getSettings
  /-- `SettingsService.updateVpnState` -/
  | updateVpnState (patch : Settings → Settings)
  /-- `LogService.writeLog` -/
  | log (level : LogLevel) (source category : String)
  /-- `WireguardService.getProfileById` -/
  | wireguardProfile (id : String)
  /-- `OpenvpnService.getProfileById` -/
  | openvpnProfile (id : String)
  /-- `VpnGateService.getServerById` -/
  | vpnGateServer (id : String)
  /-- `VpnGateService.decodeConfig` -/
  | decodeConfig
  /-- which of two promises of `Promise.all` is first -/
  | schedule
  /-- `isConnectionActive` of WireGuard or OpenVPN -/
  | isConnectionActive (t : Tunnel)
  /-- `WarpService.getStatus` -/
  | warpStatus
  /-- `stopConnection` of WireGuard or OpenVPN, or `WarpService.disconnect` -/
  | stop (t : Tunnel)
  /-- `ip link add` of WireGuard, `spawn` of OpenVPN, or `warp-cli connect` -/
  | start (t : Tunnel)
  /-- the other shell commands of `WireguardService.startConnection` -/
  | wireguardSetup
  /-- a look at the log and the process of OpenVPN -/
  | openvpnPoll
  /-- `WireguardService.hasRecentHandshake` -/
  | hasRecentHandshake
  /-- `WarpService.ensureDaemon` -/
  | ensureDaemon
  /-- `warp-cli registration new`, `warp-cli registration delete` or `warp-cli mode warp` -/
  | warpCli (args : String)
  /-- `RoutingService.cleanupBypassRouting` -/
  | cleanupBypassRouting
  /-- the `ip` commands of `RoutingService.prepareBypassRouting` -/
  | installBypassRouting
  /-- `VpnManager.verifyConnectivity` -/
  | verifyConnectivity
  /-- `new Date().toISOString()` -/
  | now

/-- The answers. An error of an `Except` is thrown. -/
@[reducible] def Cmd.Answer : Cmd → Type
  | enter => Unit
  | wait => Unit
  | leave => Unit
  | isBusy => Bool
  | getSettings => Except String Settings
  | updateVpnState _ => Except String Unit
  | log _ _ _ => Except String Unit
  | wireguardProfile _ => Except String (Option Profile)
  | openvpnProfile _ => Except String (Option Profile)
  | vpnGateServer _ => Except String (Option VpnGateServer)
  | decodeConfig => Except String Unit
  | schedule => Bool
  | isConnectionActive _ => Bool
  | warpStatus => WarpStatus
  | stop _ => Stopped
  | start _ => Started
  | wireguardSetup => Except String Unit
  | openvpnPoll => OpenvpnPoll
  | hasRecentHandshake => Bool
  | ensureDaemon => Bool
  | warpCli _ => Except String Unit
  | cleanupBypassRouting => Unit
  | installBypassRouting => Installed
  | verifyConnectivity => Option IpInfo
  | now => String

/-- A tunnel gets to a level. -/
def State.setLevel (s : State) (t : Tunnel) (l : Level) : State :=
  { s with level := fun u => if u = t then l else s.level u }

/-- Something is seen. -/
def State.record (s : State) (e : Event) : State := { s with history := s.history ++ [e] }

/-- A status query may fail and then sees nothing, but it does not see a tunnel that is not up. -/
def State.look (s : State) (t : Tunnel) (seen : Bool) : Option State :=
  if seen = true ∧ s.level t ≠ .up then none else some (s.record (.look t seen))

/-- A stop command that reports success stops its tunnel. -/
def State.stop (s : State) (t : Tunnel) (x : Stopped) : State :=
  if x.error = none ∨ x.down then (s.setLevel t .down).record (.stop t true)
  else s.record (.stop t (s.level t = .down))

/-- A start command brings its tunnel on its way; the interface of WireGuard is there at once. -/
def State.start (s : State) (t : Tunnel) (x : Started) : State :=
  if (x.error = none ∨ x.begun) ∧ s.level t = .down then
    s.setLevel t (if t = .wireguard then .up else .starting)
  else s

/-- What a command of operation `i` does; `none` if the answer is not possible. -/
def effect (i : ℕ) (s : State) : (c : Cmd) → c.Answer → Option State
  | .enter, _ =>
    if s.holder = none then some { s with holder := some i }
    else some { s with queue := s.queue ++ [i] }
  | .wait, _ => if s.holder = some i then some s else none
  | .leave, _ => some { s with holder := s.queue.head?, queue := s.queue.tail }
  | .isBusy, busy => if (busy : Bool) = s.holder.isSome then some s else none
  | .getSettings, .ok settings => if settings = s.settings then some s else none
  | .updateVpnState patch, .ok _ => some { s with settings := patch s.settings }
  | .isConnectionActive t, seen => s.look t seen
  | .warpStatus, status => s.look .warp status.connected
  | .stop t, x => some (s.stop t x)
  | .start t, x => some (s.start t x)
  | .openvpnPoll, .ready => if s.level .openvpn = .up then some s else none
  | .cleanupBypassRouting, _ => some { s with bypass := [] }
  | .installBypassRouting, x => some { s with bypass := x.rules }
  | _, _ => some s

/-- The answers when every command works and every look is right. -/
def truthful (s : State) : (c : Cmd) → c.Answer
  | .enter => ()
  | .wait => ()
  | .leave => ()
  | .isBusy => s.holder.isSome
  | .getSettings => .ok s.settings
  | .updateVpnState _ => .ok ()
  | .log _ _ _ => .ok ()
  | .wireguardProfile _ => .ok (some ⟨"Home", 1⟩)
  | .openvpnProfile _ => .ok (some ⟨"Office", 1⟩)
  | .vpnGateServer _ => .ok (some ⟨"203.0.113.1", "JP"⟩)
  | .decodeConfig => .ok ()
  | .schedule => true
  | .isConnectionActive t => s.level t = .up
  | .warpStatus => ⟨true, s.level .warp = .up⟩
  | .stop _ => ⟨none, true⟩
  | .start _ => ⟨none, true⟩
  | .wireguardSetup => .ok ()
  | .openvpnPoll => if s.level .openvpn = .up then .ready else .again
  | .hasRecentHandshake => true
  | .ensureDaemon => true
  | .warpCli _ => .ok ()
  | .cleanupBypassRouting => ()
  | .installBypassRouting => ⟨none, ["default"]⟩
  | .verifyConnectivity => some ⟨"198.51.100.1", none⟩
  | .now => "now"

/-- An operation. -/
abbrev Op := Program Cmd Cmd.Answer Failure

/-- One command. -/
abbrev perform (c : Cmd) : Op c.Answer := Program.perform c

/-- An answer that is an error is thrown. -/
def orThrow {α : Type} : Except String α → Op α
  | .ok a => pure a
  | .error message => throw (.other message)

/-- So is the error of a result. -/
def orFail : Option String → Op Unit
  | none => pure ()
  | some message => throw (.other message)

section

variable {P α : Type} {π : Protocol Cmd Cmd.Answer P} {p : P} {R : Failure → P → Prop}

@[simp] theorem follows_orThrow {x : Except String α} {Q : α → P → Prop} :
    Follows π (orThrow x) p Q R ↔
      (∀ a, x = .ok a → Q a p) ∧ (∀ message, x = .error message → R (.other message) p) := by
  cases x <;> simp [orThrow]

end

end IptvProxy.Vpn
