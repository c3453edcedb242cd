import IptvProxy.Vpn.Types

/-!
# The operations of the VPN manager

`vpn-manager.ts`, `startConnection` of `wireguard.ts` and `openvpn.ts`, `register`, `connect` and
`rotate` of `warp.ts`, and the two maintenance requests of `src/app/api/vpn/warp/route.ts`, each as
a program over the commands. A loop that ends at a deadline has the number of its rounds as a
parameter.
-/

namespace IptvProxy.Vpn

open Effect

/-- `LogService.info` and the others -/
def log (level : LogLevel) (source category : String) : Op Unit := do
  orThrow (← perform (.log level source category))

/-- `SettingsService.getSettings` -/
def getSettings : Op Settings := do
  orThrow (← perform .getSettings)

/-- `SettingsService.updateVpnState` -/
def updateVpnState (patch : Settings → Settings) : Op Unit := do
  orThrow (← perform (.updateVpnState patch))

/-! ## The tunnels -/

/-- The looks at WireGuard and WARP, in either order. -/
def lookAtOthers (wireguardFirst : Bool) : Op (Bool × Bool) :=
  if wireguardFirst then do
    let wireguard ← perform (.isConnectionActive .wireguard)
    let status ← perform .warpStatus
    return (wireguard, status.connected)
  else do
    let status ← perform .warpStatus
    let wireguard ← perform (.isConnectionActive .wireguard)
    return (wireguard, status.connected)

/-- The list that is made of three looks. -/
def activeTunnels (wireguard openvpn warp : Bool) : List Tunnel :=
  (if wireguard then [.wireguard] else []) ++ (if openvpn then [.openvpn] else []) ++
    (if warp then [.warp] else [])

/-- `getRuntimeTunnels`. The look at OpenVPN does not wait. -/
def getRuntimeTunnels : Op (List Tunnel) := do
  let openvpn ← perform (.isConnectionActive .openvpn)
  let others ← lookAtOthers (← perform .schedule)
  return activeTunnels others.1 openvpn others.2

/-- `stopAllTunnels`, which does not look at what the three report -/
def stopAllTunnels : Op Unit := do
  let _ ← perform (.stop .wireguard)
  let _ ← perform (.stop .openvpn)
  let _ ← perform (.stop .warp)

/-- The part of `RoutingService.prepareBypassRouting` whose errors are logged. -/
def installBypassRouting : Op Unit := do
  perform .cleanupBypassRouting
  let installed ← perform .installBypassRouting
  orFail installed.error
  log .debug "vpn" "routing"

/-- `RoutingService.prepareBypassRouting` -/
def prepareBypassRouting : Op Unit := do
  match ← installBypassRouting.attempt with
  | .ok () => return ()
  | .error e =>
    log .error "vpn" "routing"
    throw (.other s!"Unable to preserve inbound service routing: {e.message}")

/-- `prepareForConnection` -/
def prepareForConnection : Op (Option IpInfo) := do
  stopAllTunnels
  perform .cleanupBypassRouting
  let baseline ← perform .verifyConnectivity
  prepareBypassRouting
  return baseline

/-- The part of `WireguardService.startConnection` that may throw. -/
def configureWireguard : Op Unit := do
  let _ ← perform (.stop .wireguard)
  orThrow (← perform .wireguardSetup)
  let added ← perform (.start .wireguard)
  orFail added.error
  orThrow (← perform .wireguardSetup)
  log .info "wireguard" "connect"

/-- `WireguardService.startConnection`: the error, if there is one -/
def startWireguard : Op (Option String) := do
  match ← configureWireguard.attempt with
  | .ok () => return none
  | .error e =>
    let _ ← perform (.stop .wireguard)
    return some s!"WireGuard startup failed: {e.message}"

/-- The loop of `OpenvpnService.startConnection`. -/
def awaitOpenvpn : ℕ → Op (Option String)
  | 0 => return some "OpenVPN did not become ready in time."
  | rounds + 1 => do
    match ← perform .openvpnPoll with
    | .ready => return none
    | .failed error => return some error
    | .again => awaitOpenvpn rounds

/-- `OpenvpnService.startConnection` -/
def startOpenvpn (rounds : ℕ) : Op (Option String) := do
  let spawned ← perform (.start .openvpn)
  match spawned.error with
  | some error => return some error
  | none => awaitOpenvpn rounds

/-- `ensureDaemon`, if an error is thrown without the daemon. -/
def requireDaemon (message : String) : Op Unit := do
  if ← perform .ensureDaemon then return () else throw (.other message)

/-- The part of `WarpService.register` whose errors are logged. -/
def createRegistration : Op Unit := do
  orThrow (← perform (.warpCli "registration new"))
  let _ ← perform (.warpCli "mode warp")
  log .info "warp" "registration"

/-- `WarpService.register` -/
def register : Op Unit := do
  requireDaemon "Cloudflare WARP service is unavailable."
  let current ← perform .warpStatus
  if current.registered then return () else
  match ← createRegistration.attempt with
  | .ok () => return ()
  | .error e =>
    log .error "warp" "registration"
    throw (.other s!"WARP registration failed: {e.message}")

/-- The loop of `WarpService.connect`. -/
def awaitWarp : ℕ → Op Unit
  | 0 => throw (.other "Cloudflare WARP did not reach Connected state within 30 seconds.")
  | rounds + 1 => do
    let status ← perform .warpStatus
    if status.connected then return () else awaitWarp rounds

/-- Registration in `WarpService.connect`, if there is none. -/
def ensureRegistered : Op Unit := do
  let current ← perform .warpStatus
  if current.registered then return () else register

/-- The part of `WarpService.connect` that may throw. -/
def connectWarpClient (rounds : ℕ) : Op Unit := do
  requireDaemon "warp-svc is unavailable."
  ensureRegistered
  let _ ← perform (.warpCli "mode warp")
  let connected ← perform (.start .warp)
  orFail connected.error
  awaitWarp rounds

/-- `WarpService.connect`: the error, if there is one -/
def startWarp (rounds : ℕ) : Op (Option String) := do
  match ← (connectWarpClient rounds).attempt with
  | .ok () => return none
  | .error e => return some e.message

/-- A new registration in `WarpService.rotate`. -/
def renewRegistration : Op Unit := do
  let _ ← perform (.warpCli "registration delete")
  register

/-- The part of `WarpService.rotate` that may throw. -/
def rotateRegistration (rounds : ℕ) (wasConnected : Bool) : Op Unit :=
  if wasConnected then do
    let _ ← perform (.stop .warp)
    renewRegistration
    orFail (← startWarp rounds)
    log .warn "warp" "rotate"
  else do
    renewRegistration
    log .warn "warp" "rotate"

/-- `WarpService.rotate`: whether it has reconnected -/
def rotate (rounds : ℕ) : Op Bool := do
  requireDaemon "Cloudflare WARP service is unavailable."
  let before ← perform .warpStatus
  match ← (rotateRegistration rounds before.connected).attempt with
  | .ok () => return before.connected
  | .error e =>
    log .error "warp" "rotate"
    throw (.other s!"WARP rotation failed: {e.message}")

/-! ## The stored state -/

/-- What `reconcileRuntimeState` and the operations store with an error. -/
def errorPatch (message : String) (s : Settings) : Settings :=
  { s with
    vpnStatus := .error, vpnLastError := some message, vpnConnectedAt := none, vpnPublicIp := none,
    vpnCountry := none }

/-- `markError` -/
def markError (type : Tunnel) (profileId : Option String) (label message : String) : Op Unit :=
  updateVpnState fun s =>
    { errorPatch message s with
      activeVpnType := some type, activeVpnProfileId := profileId, activeVpnLabel := some label }

/-- What an operation stores before it starts its tunnel. -/
def connectingPatch (type : Tunnel) (profileId : Option String) (label : String) :
    Settings → Settings := fun _ =>
  ⟨some type, profileId, some label, .connecting, none, none, none, none⟩

/-- What it stores when the tunnel is up. -/
def connectedPatch (now ip : String) (country : Option String) (s : Settings) : Settings :=
  { s with
    vpnStatus := .connected, vpnConnectedAt := some now, vpnPublicIp := some ip,
    vpnCountry := country, vpnLastError := none }

/-- What `reconcileRuntimeState` stores for a tunnel that the settings do not have as connected. -/
def recoveredPatch (actual : Tunnel) (current : Settings) (ipInfo : Option IpInfo) (now : String)
    (s : Settings) : Settings :=
  { s with
    activeVpnType := some actual
    activeVpnProfileId :=
      if current.activeVpnType = some actual then current.activeVpnProfileId else none
    activeVpnLabel :=
      if current.activeVpnType = some actual then current.activeVpnLabel
      else some (if actual = .warp then "Cloudflare WARP" else s!"Recovered {actual.text}")
    vpnStatus := .connected
    vpnLastError := none
    vpnConnectedAt := current.vpnConnectedAt.or (some now)
    vpnPublicIp := (ipInfo.map IpInfo.ip).or current.vpnPublicIp
    vpnCountry := (ipInfo.bind IpInfo.country).or current.vpnCountry }

/-- `reconcileRuntimeState` -/
def reconcileRuntimeState : Op Settings := do
  let current ← getSettings
  let runtime ← getRuntimeTunnels
  match runtime with
  | [] =>
    if current.vpnStatus = .connected then do
      updateVpnState (errorPatch "Stored VPN state was connected, but the tunnel process/interface is no longer active.")
      log .warn "vpn" "reconcile"
      getSettings
    else return current
  | [actual] =>
    if current.vpnStatus ≠ .connected ∨ current.activeVpnType ≠ some actual then do
      let ipInfo ← perform .verifyConnectivity
      let now ← perform .now
      updateVpnState (recoveredPatch actual current ipInfo now)
      log .warn "vpn" "reconcile"
      getSettings
    else return current
  | _ =>
    let tunnels := ", ".intercalate (runtime.map Tunnel.text)
    updateVpnState (errorPatch s!"Multiple VPN tunnels are active at runtime ({tunnels}). Manual disconnect is required.")
    log .warn "vpn" "reconcile"
    getSettings

/-- The label of `assertCanStartConnection`; the type `'off'` is not empty. -/
def conflictLabel (current : Settings) : String :=
  match current.activeVpnLabel with
  | some label => if label = "" then type else label
  | none => type
where
  type := match current.activeVpnType with
    | none => "off"
    | some t => t.text

/-- `assertCanStartConnection` -/
def assertCanStartConnection : Op Unit := do
  let current ← reconcileRuntimeState
  let runtime ← getRuntimeTunnels
  if current.vpnStatus = .connecting then throw .connecting
  else if runtime ≠ [] ∨ current.vpnStatus = .connected then
    throw (.connected (conflictLabel current))
  else return ()

/-! ## The operations under the lock -/

/-- `vpnLock.acquire` -/
def acquire : Op Unit := do
  perform .enter
  perform .wait

/-- What an operation resolves to: the error, if there is one. -/
abbrev Result := Option Failure

/-- The frame of an operation: the lock is released in the end. -/
def locked {α : Type} (m : Op α) : Op α := do
  acquire
  m.finallyDo (perform .leave)

/-- `disconnect` says what it ends. -/
def announceDisconnect (current : Settings) : Op Unit :=
  if current.vpnStatus ≠ .off ∨ current.activeVpnType ≠ none then log .info "vpn" "disconnect"
  else return ()

/-- The part of `disconnect` that may throw. -/
def disconnectTunnels : Op Unit := do
  let current ← getSettings
  announceDisconnect current
  stopAllTunnels
  perform .cleanupBypassRouting
  updateVpnState fun _ => ⟨none, none, none, .off, none, none, none, none⟩
  log .info "vpn" "disconnected"

/-- `disconnect` -/
def disconnect : Op Result := locked do
  match ← disconnectTunnels.attempt with
  | .ok () => return none
  | .error e =>
    log .error "vpn" "disconnect"
    return some e

/-- The `catch` block of a connect operation, whose own tunnel is `own`. -/
def connectFailed (source : String) (own : Tunnel) (profileId : Option String) (label : String) :
    Failure → Op Result
  | .connecting => do
    log .warn source "connection_blocked"
    return some .connecting
  | .connected blocking => do
    log .warn source "connection_blocked"
    return some (.connected blocking)
  | e => do
    let _ ← perform (.stop own)
    perform .cleanupBypassRouting
    markError own profileId label e.message
    log .error source "connection_failure"
    return some e

/-- The `try` block of a connect operation after its lookup. The tunnel is brought up by
`establish`, which returns the address it sees and the country to store. -/
def bringUp (source : String) (own : Tunnel) (profileId : Option String) (label : String)
    (establish : Option IpInfo → Op (String × Option String)) : Op Unit := do
  assertCanStartConnection
  log .info source "connecting"
  let baseline ← prepareForConnection
  updateVpnState (connectingPatch own profileId label)
  let seen ← establish baseline
  let now ← perform .now
  updateVpnState (connectedPatch now seen.1 seen.2)
  log .info source "connected"

/-- The same with its `catch` block. -/
def connectTunnel (source : String) (own : Tunnel) (profileId : Option String) (label : String)
    (establish : Option IpInfo → Op (String × Option String)) : Op Result := do
  match ← (bringUp source own profileId label establish).attempt with
  | .ok () => return none
  | .error e => connectFailed source own profileId label e

/-- The verification loop of `connectWireguard`. -/
def verifyWireguard (baseline : Option IpInfo) : ℕ → Option IpInfo → Bool →
    Op (Option IpInfo × Bool)
  | 0, ipInfo, handshake => return (ipInfo, handshake)
  | rounds + 1, _, _ => do
    let ipInfo ← perform .verifyConnectivity
    let handshake ← perform .hasRecentHandshake
    if ipInfo.isSome ∧ (handshake ∨ ipInfo.map IpInfo.ip ≠ baseline.map IpInfo.ip) then
      return (ipInfo, handshake)
    else verifyWireguard baseline rounds ipInfo handshake

/-- `connectWireguard`, from the start of the tunnel on -/
def establishWireguard (rounds : ℕ) (baseline : Option IpInfo) : Op (String × Option String) := do
  orFail (← startWireguard)
  let verified ← verifyWireguard baseline rounds none false
  let active ← perform (.isConnectionActive .wireguard)
  if !active then throw (.other "WireGuard interface disappeared after startup.")
  else match verified with
    | (none, _) =>
      throw (.other "WireGuard is up but external connectivity could not be verified.")
    | (some ipInfo, handshake) =>
      if ¬handshake ∧ some ipInfo.ip = baseline.map IpInfo.ip then
        throw (.other "WireGuard is up, but no peer handshake or VPN egress change was verified.")
      else return (ipInfo.ip, ipInfo.country)

/-- `connectOpenvpn` and `connectVpnGateServer`, from the start of the tunnel on -/
def establishOpenvpn (rounds : ℕ) (gone unverified : String) (fallback : Option String) :
    Op (String × Option String) := do
  orFail (← startOpenvpn rounds)
  let active ← perform (.isConnectionActive .openvpn)
  if !active then throw (.other gone)
  else match ← perform .verifyConnectivity with
    | none => throw (.other unverified)
    | some ipInfo => return (ipInfo.ip, ipInfo.country.or fallback)

/-- `connectWarp`, from the start of the tunnel on -/
def establishWarp (rounds : ℕ) : Op (String × Option String) := do
  orFail (← startWarp rounds)
  let status ← perform .warpStatus
  if !status.connected then throw (.other "warp-cli did not report Connected state.")
  else match ← perform .verifyConnectivity with
    | none => throw (.other "WARP connected but external connectivity could not be verified.")
    | some ipInfo => return (ipInfo.ip, ipInfo.country)

/-- The lookup of a profile. -/
def requireProfile (kind : String) (found : Except String (Option Profile)) : Op Profile := do
  match ← orThrow found with
  | none => throw (.notFound s!"{kind} profile not found.")
  | some profile =>
    if profile.enabled = 0 then throw (.disabled s!"{kind} profile is disabled.")
    else return profile

/-- `connectWireguard` -/
def connectWireguard (rounds : ℕ) (profileId : String) : Op Result := locked do
  let found ← perform (.wireguardProfile profileId)
  match ← (requireProfile "WireGuard" found).attempt with
  | .error e => connectFailed "wireguard" .wireguard (some profileId) "WireGuard" e
  | .ok profile =>
    connectTunnel "wireguard" .wireguard (some profileId) profile.name
      (establishWireguard rounds)

/-- `connectOpenvpn` -/
def connectOpenvpn (rounds : ℕ) (profileId : String) : Op Result := locked do
  let found ← perform (.openvpnProfile profileId)
  match ← (requireProfile "OpenVPN" found).attempt with
  | .error e => connectFailed "openvpn" .openvpn (some profileId) "OpenVPN" e
  | .ok profile =>
    connectTunnel "openvpn" .openvpn (some profileId) profile.name fun _ =>
      establishOpenvpn rounds "OpenVPN process did not remain connected."
        "OpenVPN connected but external connectivity could not be verified." none

/-- The server of `connectVpnGateServer`. -/
def requireServer (serverId : String) : Op VpnGateServer := do
  match ← orThrow (← perform (.vpnGateServer serverId)) with
  | none =>
    throw (.notFound "VPNGate server is no longer available. Refresh the server list.")
  | some server => return server

/-- `connectVpnGateServer` -/
def connectVpnGateServer (rounds : ℕ) (serverId : String) : Op Result := locked do
  let runtimeId := some s!"vpngate:{serverId}"
  match ← (requireServer serverId).attempt with
  | .error e => connectFailed "vpngate" .openvpn runtimeId "VPNGate" e
  | .ok server =>
    let label := s!"VPNGate {server.countryShort} {server.ip}"
    match ← perform .decodeConfig with
    | .error message => connectFailed "vpngate" .openvpn runtimeId label (.other message)
    | .ok () =>
      connectTunnel "vpngate" .openvpn runtimeId label fun _ =>
        establishOpenvpn rounds "VPNGate OpenVPN process did not remain connected."
          "VPNGate connected but external connectivity could not be verified."
          (some server.countryShort)

/-- `connectWarp` -/
def connectWarp (rounds : ℕ) : Op Result :=
  locked (connectTunnel "warp" .warp none "Cloudflare WARP" fun _ => establishWarp rounds)

/-! ## The requests without the lock -/

/-- The name of the profile in `getVpnStatusSummary`. -/
def profileName (settings : Settings) : Op (Option String) :=
  match settings.activeVpnLabel, settings.activeVpnType, settings.activeVpnProfileId with
  | some label, _, _ => return some label
  | none, some .wireguard, some id => do
    let profile ← orThrow (← perform (.wireguardProfile id))
    return profile.map Profile.name
  | none, some .openvpn, some id =>
    if "vpngate:".isPrefixOf id then return none
    else do
      let profile ← orThrow (← perform (.openvpnProfile id))
      return profile.map Profile.name
  | none, some .warp, _ => return some "Cloudflare WARP"
  | none, _, _ => return none

/-- `getVpnStatusSummary`: the settings and the name of the profile -/
def getVpnStatusSummary : Op (Settings × Option String) := do
  let settings ← reconcileRuntimeState
  let name ← profileName settings
  return (settings, name)

/-- The first lines of `POST /api/vpn/warp`. -/
def assertIdle : Op Unit := do
  let busy ← perform .isBusy
  if busy then throw (.other "Another VPN operation is already in progress.") else return ()

/-- The conditions of `register`. -/
def assertRegisterAllowed : Op Unit := do
  assertIdle
  let summary ← getVpnStatusSummary
  if summary.1.vpnStatus = .connected ∨ summary.1.vpnStatus = .connecting then
    throw (.other "Disconnect the current VPN before registering Cloudflare WARP.")
  else
    let status ← perform .warpStatus
    if status.registered then throw (.other "Cloudflare WARP is already registered.")
    else return ()

/-- `POST /api/vpn/warp` with `register` -/
def registerRequest : Op Unit := do
  assertRegisterAllowed
  register
  let _ ← perform .warpStatus

/-- The name of the connection that prevents a rotation. -/
def rotateLabel (summary : Settings × Option String) : String :=
  match summary.2, summary.1.activeVpnType with
  | some name, _ => name
  | none, some type => type.text
  | none, none => "off"

/-- The conditions of `rotate`. -/
def assertRotateAllowed : Op Unit := do
  assertIdle
  let before ← getVpnStatusSummary
  if before.1.vpnStatus = .connecting then
    throw (.other "Wait for the current VPN operation to finish before rotating WARP.")
  else if before.1.vpnStatus = .connected ∧ before.1.activeVpnType ≠ some .warp then
    throw (.other s!"Cannot rotate Cloudflare WARP while {rotateLabel before} is connected.")
  else
    let status ← perform .warpStatus
    if status.registered then return ()
    else throw (.other "Cloudflare WARP is not registered.")

/-- What `rotate` stores when WARP is up again. -/
def recordReconnected : Op Unit := do
  let ipInfo ← perform .verifyConnectivity
  let now ← perform .now
  updateVpnState fun _ =>
    ⟨some .warp, none, some "Cloudflare WARP", .connected, none, some now,
      ipInfo.map IpInfo.ip, ipInfo.bind IpInfo.country⟩
  let _ ← getVpnStatusSummary

/-- `POST /api/vpn/warp` with `rotate` -/
def rotateRequest (rounds : ℕ) : Op Unit := do
  assertRotateAllowed
  let reconnected ← rotate rounds
  if reconnected then recordReconnected
  else
    let _ ← perform .warpStatus

/-! ## Requests -/

/-- The requests. The poll that follows an error of a route is another request. -/
inductive Request where
  | connectWireguard (profileId : String)
  | connectOpenvpn (profileId : String)
  | connectVpnGateServer (serverId : String)
  | connectWarp
  | disconnect
  | register
  | rotate
  | status
  deriving DecidableEq

/-- What a request runs. -/
def Request.program (rounds : ℕ) : Request → Op Result
  | connectWireguard profileId => Vpn.connectWireguard rounds profileId
  | connectOpenvpn profileId => Vpn.connectOpenvpn rounds profileId
  | connectVpnGateServer serverId => Vpn.connectVpnGateServer rounds serverId
  | connectWarp => Vpn.connectWarp rounds
  | disconnect => Vpn.disconnect
  | register => do
    registerRequest
    return none
  | rotate => do
    rotateRequest rounds
    return none
  | status => do
    let _ ← getVpnStatusSummary
    return none

/-- The tunnel that a connect operation brings up. -/
def Request.target : Request → Option Tunnel
  | connectWireguard _ => some .wireguard
  | connectOpenvpn _ => some .openvpn
  | connectVpnGateServer _ => some .openvpn
  | connectWarp => some .warp
  | _ => none

end IptvProxy.Vpn
