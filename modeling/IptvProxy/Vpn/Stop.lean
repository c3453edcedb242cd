import IptvProxy.Vpn.Manager

/-!
# Stopping the tunnels

`VpnManager.disconnect` with what it calls to stop the tunnels: `cleanupRuntimeNetwork` of
`wireguard.ts`, `stopConnection` of `openvpn.ts` and `WarpService.disconnect`. A command that stops
a tunnel takes it down or fails and leaves it up.

None of the three tells its failure to the manager in a way that it looks at: WireGuard's is
swallowed, and what the other two return is not read. So `off` is stored and success reported while
a tunnel is up (`disconnect_leaves_wireguard`). It is not exactly where every tunnel that is up is
reached by a command that works, or the settings or the log fail (`disconnect_ends_tunnels_iff`).
-/

namespace IptvProxy.Vpn.Stop

/-- The processes that OpenVPN's tunnel depends on. -/
structure Openvpn where
  /-- the process that carries the tunnel, if it is up -/
  process : Option ℤ
  /-- `activeOpenvpnProcess` -/
  active : Option ℤ
  /-- `PID_FILE`, with what `parseInt` makes of it -/
  pidFile : Option (Option ℤ)
  /-- other processes -/
  others : List ℤ
  deriving DecidableEq

/-- The three tunnels and what is stored. -/
structure World where
  /-- the interface of WireGuard -/
  wireguard : Bool
  /-- OpenVPN -/
  openvpn : Openvpn
  /-- WARP is connected -/
  warp : Bool
  /-- the rules and the routes of the bypass table -/
  bypass : List String
  /-- the stored settings -/
  settings : Settings
  deriving DecidableEq

/-- How the commands end. -/
structure Outcomes where
  /-- `ip link delete` works -/
  linkDelete : Bool
  /-- `SIGTERM` for `activeOpenvpnProcess` ends it -/
  activeTerm : Bool
  /-- `PID_FILE` can be read -/
  pidFileRead : Bool
  /-- `SIGTERM` for the process of `PID_FILE` ends it in time -/
  term : Bool
  /-- `SIGKILL` ends it -/
  kill : Bool
  /-- the runtime files can be removed -/
  filesRemoved : Bool
  /-- `isWarpInstalled` -/
  warpInstalled : Bool
  /-- `ensureDaemon` -/
  daemon : Bool
  /-- `warp-cli disconnect` works -/
  warpDisconnect : Bool
  /-- `SettingsService.getSettings` works -/
  settingsRead : Bool
  /-- the first entry in the log is written -/
  announced : Bool
  /-- `SettingsService.updateVpnState` works -/
  settingsStored : Bool
  /-- the last entry in the log is written -/
  logged : Bool
  deriving DecidableEq

/-- `{ success, error }` -/
abbrev Report : Type := Except String Unit

/-- `cleanupRuntimeNetwork`, as far as the interface is concerned; `stopConnection` of WireGuard
always reports success. -/
def stopWireguard (w : World) (o : Outcomes) : Report × World :=
  (.ok (), if o.linkDelete then { w with wireguard := false } else w)

/-- `pidIsAlive` -/
def Openvpn.pidIsAlive (v : Openvpn) (pid : ℤ) : Bool := v.process = some pid || v.others.contains pid

/-- A signal that may end a process. -/
def Openvpn.signal (v : Openvpn) (pid : ℤ) (ends : Bool) : Openvpn :=
  if ends then
    { v with
      process := if v.process = some pid then none else v.process
      others := v.others.filter (· ≠ pid) }
  else v

/-- `SIGTERM` for `activeOpenvpnProcess` -/
def Openvpn.stopActive (v : Openvpn) (o : Outcomes) : Openvpn :=
  match v.active with
  | none => v
  | some pid => { v.signal pid o.activeTerm with active := none }

/-- The signals for the process of `PID_FILE`. -/
def Openvpn.stopPid (v : Openvpn) (o : Outcomes) : Openvpn :=
  match v.pidFile with
  | some (some pid) =>
    if v.pidIsAlive pid then
      let v := v.signal pid o.term
      if v.pidIsAlive pid then v.signal pid o.kill else v
    else v
  | _ => v

/-- `stopConnection` of OpenVPN -/
def stopOpenvpn (w : World) (o : Outcomes) : Report × World :=
  let v := w.openvpn.stopActive o
  if v.pidFile.isSome ∧ o.pidFileRead = false then
    (.error "the file with the process id cannot be read", { w with openvpn := v })
  else
    let v := v.stopPid o
    if o.filesRemoved then (.ok (), { w with openvpn := { v with pidFile := none } })
    else (.error "a runtime file cannot be removed", { w with openvpn := v })

/-- `WarpService.disconnect` -/
def stopWarp (w : World) (o : Outcomes) : Report × World :=
  if o.warpInstalled = false then (.ok (), w)
  else if o.daemon = false then (.ok (), w)
  else if o.warpDisconnect then (.ok (), { w with warp := false })
  else (.error "warp-cli disconnect fails", w)

/-- `stopAllTunnels`, which does not look at what the three report -/
def stopAllTunnels (w : World) (o : Outcomes) : World :=
  (stopWarp (stopOpenvpn (stopWireguard w o).2 o).2 o).2

/-- What `disconnect` stores. -/
def off : Settings := ⟨none, none, none, .off, none, none, none, none⟩

/-- `disconnect` says what it ends. -/
def announces (settings : Settings) : Bool :=
  settings.vpnStatus ≠ .off || settings.activeVpnType ≠ none

/-- `disconnect` -/
def disconnect (w : World) (o : Outcomes) : Report × World :=
  if o.settingsRead = false then (.error "the settings cannot be read", w)
  else if announces w.settings ∧ o.announced = false then (.error "the log cannot be written", w)
  else
    let w := stopAllTunnels w o
    let w := { w with bypass := [] }
    if o.settingsStored = false then (.error "the settings cannot be stored", w)
    else
      let w := { w with settings := off }
      if o.logged = false then (.error "the log cannot be written", w) else (.ok (), w)

/-- No tunnel is up. -/
def World.Quiet (w : World) : Prop :=
  w.wireguard = false ∧ w.openvpn.process = none ∧ w.warp = false

/-- The settings are read and stored, and the log is written. -/
def Outcomes.Undisturbed (o : Outcomes) (settings : Settings) : Prop :=
  o.settingsRead = true ∧ (announces settings = true → o.announced = true) ∧
    o.settingsStored = true ∧ o.logged = true

/-- Every tunnel that is up is reached by a command that works: WireGuard's interface is deleted;
OpenVPN's process is the one that was started here or the one of the file, and ends at one of the
signals that it gets; WARP is found, its daemon answers and disconnects. -/
structure Reached (w : World) (o : Outcomes) : Prop where
  /-- WireGuard -/
  wireguard : w.wireguard = true → o.linkDelete = true
  /-- OpenVPN -/
  openvpn : ∀ pid, w.openvpn.process = some pid →
    w.openvpn.active = some pid ∧ o.activeTerm = true ∨
      w.openvpn.pidFile = some (some pid) ∧ o.pidFileRead = true ∧
        (o.term = true ∨ o.kill = true)
  /-- WARP -/
  warp : w.warp = true → o.warpInstalled = true ∧ o.daemon = true ∧ o.warpDisconnect = true

variable {w : World} {o : Outcomes} {v : Openvpn} {pid : ℤ}

/-! ## OpenVPN -/

theorem Openvpn.signal_process (v : Openvpn) (pid : ℤ) (ends : Bool) :
    (v.signal pid ends).process = if ends = true ∧ v.process = some pid then none else v.process := by
  unfold Openvpn.signal
  cases ends with
  | false => simp
  | true => simp

@[simp] theorem Openvpn.signal_pidFile (v : Openvpn) (pid : ℤ) (ends : Bool) :
    (v.signal pid ends).pidFile = v.pidFile := by
  unfold Openvpn.signal
  split <;> rfl

theorem Openvpn.stopActive_process (v : Openvpn) (o : Outcomes) : (v.stopActive o).process =
    if o.activeTerm = true ∧ v.active = v.process then none else v.process := by
  obtain ⟨process, active, pidFile, others⟩ := v
  cases active with
  | none =>
    cases process with
    | none => simp [Openvpn.stopActive]
    | some pid => simp [Openvpn.stopActive]
  | some pid =>
    rw [Openvpn.stopActive]
    dsimp only
    rw [Openvpn.signal_process]
    simp only [eq_comm]

@[simp] theorem Openvpn.stopActive_pidFile (v : Openvpn) (o : Outcomes) :
    (v.stopActive o).pidFile = v.pidFile := by
  unfold Openvpn.stopActive
  cases v.active <;> simp

theorem Openvpn.stopPid_process (v : Openvpn) (o : Outcomes) : (v.stopPid o).process =
    if (o.term = true ∨ o.kill = true) ∧ v.pidFile = some v.process then none else v.process := by
  obtain ⟨process, active, pidFile, others⟩ := v
  rcases pidFile with _ | _ | pid
  · simp [Openvpn.stopPid]
  · cases process <;> simp [Openvpn.stopPid]
  · by_cases hpid : process = some pid
    · -- the process of the file: it is alive, and ends at one of the two signals
      subst hpid
      cases hterm : o.term with
      | false => simp [Openvpn.stopPid, Openvpn.pidIsAlive, Openvpn.signal, hterm]
                 cases o.kill <;> simp
      | true => simp [Openvpn.stopPid, Openvpn.pidIsAlive, Openvpn.signal, hterm]
    · have hsignal : ∀ (u : Openvpn) (ends : Bool), u.process = process →
          (u.signal pid ends).process = process := by
        intro u ends hu
        rw [Openvpn.signal_process, hu, if_neg fun h => hpid h.2]
      have hkeep : (Openvpn.stopPid ⟨process, active, some (some pid), others⟩ o).process =
          process := by
        unfold Openvpn.stopPid
        dsimp only
        split
        · split
          · exact hsignal _ _ (hsignal _ _ rfl)
          · exact hsignal _ _ rfl
        · rfl
      rw [hkeep]
      split
      · next h => exact absurd (Option.some.inj h.2).symm hpid
      · rfl

/-- OpenVPN's process ends exactly where it is reached. -/
theorem stopOpenvpn_process (w : World) (o : Outcomes) :
    (stopOpenvpn w o).2.openvpn.process = none ↔ ∀ pid, w.openvpn.process = some pid →
      w.openvpn.active = some pid ∧ o.activeTerm = true ∨
        w.openvpn.pidFile = some (some pid) ∧ o.pidFileRead = true ∧
          (o.term = true ∨ o.kill = true) := by
  have hactive := w.openvpn.stopActive_process o
  have hpid := (w.openvpn.stopActive o).stopPid_process o
  have hprocess : (stopOpenvpn w o).2.openvpn.process =
      if w.openvpn.pidFile.isSome = true ∧ o.pidFileRead = false then
        (w.openvpn.stopActive o).process
      else ((w.openvpn.stopActive o).stopPid o).process := by
    unfold stopOpenvpn
    dsimp only
    rw [Openvpn.stopActive_pidFile]
    split
    · rfl
    · split <;> rfl
  rw [hprocess]
  cases hp : w.openvpn.process with
  | none =>
    have hnone : (w.openvpn.stopActive o).process = none := by
      rw [hactive, hp]
      split <;> rfl
    refine iff_of_true ?_ (by rintro _ ⟨⟩)
    split
    · exact hnone
    · rw [hpid, hnone]
      split <;> rfl
  | some pid =>
    simp only [Option.some.injEq, forall_eq']
    by_cases hreached : w.openvpn.active = some pid ∧ o.activeTerm = true
    · have hnone : (w.openvpn.stopActive o).process = none := by
        rw [hactive, hp, if_pos ⟨hreached.2, hreached.1⟩]
      refine iff_of_true ?_ (.inl hreached)
      split
      · exact hnone
      · rw [hpid, hnone]
        split <;> rfl
    · have hstill : (w.openvpn.stopActive o).process = some pid := by
        rw [hactive, hp, if_neg fun h => hreached ⟨h.2, h.1⟩]
      rw [hpid, hstill, Openvpn.stopActive_pidFile]
      by_cases hread : w.openvpn.pidFile.isSome = true ∧ o.pidFileRead = false
      · rw [if_pos hread]
        refine iff_of_false (Option.some_ne_none pid) ?_
        rintro (h | ⟨-, h, -⟩)
        · exact hreached h
        · rw [hread.2] at h
          cases h
      · rw [if_neg hread]
        constructor
        · intro h
          split at h
          · next hboth =>
            refine .inr ⟨hboth.2, ?_, hboth.1⟩
            rw [hboth.2] at hread
            exact eq_true_of_ne_false fun hno => hread ⟨rfl, hno⟩
          · cases h
        · rintro (h | ⟨hfile, -, hsignal⟩)
          · exact absurd h hreached
          · rw [if_pos ⟨hsignal, hfile⟩]

/-! ## All of them -/

theorem stopWireguard_openvpn (w : World) (o : Outcomes) :
    (stopWireguard w o).2.openvpn = w.openvpn ∧ (stopWireguard w o).2.warp = w.warp := by
  unfold stopWireguard
  split <;> exact ⟨rfl, rfl⟩

theorem stopOpenvpn_wireguard (w : World) (o : Outcomes) :
    (stopOpenvpn w o).2.wireguard = w.wireguard ∧ (stopOpenvpn w o).2.warp = w.warp := by
  unfold stopOpenvpn
  dsimp only
  split
  · exact ⟨rfl, rfl⟩
  · split <;> exact ⟨rfl, rfl⟩

theorem stopWarp_wireguard (w : World) (o : Outcomes) :
    (stopWarp w o).2.wireguard = w.wireguard ∧ (stopWarp w o).2.openvpn = w.openvpn := by
  unfold stopWarp
  repeat' split
  all_goals exact ⟨rfl, rfl⟩

theorem stopWarp_warp (w : World) (o : Outcomes) : (stopWarp w o).2.warp = false ↔
    (w.warp = true → o.warpInstalled = true ∧ o.daemon = true ∧ o.warpDisconnect = true) := by
  unfold stopWarp
  cases o.warpInstalled <;> cases o.daemon <;> cases o.warpDisconnect <;> simp

/-- After the three stops no tunnel is up exactly where every one that was up was reached. -/
theorem quiet_stopAllTunnels_iff (w : World) (o : Outcomes) :
    (stopAllTunnels w o).Quiet ↔ Reached w o := by
  have hwireguard : (stopAllTunnels w o).wireguard = false ↔
      (w.wireguard = true → o.linkDelete = true) := by
    rw [stopAllTunnels, (stopWarp_wireguard ..).1, (stopOpenvpn_wireguard ..).1, stopWireguard]
    cases o.linkDelete <;> simp
  have hopenvpn : (stopAllTunnels w o).openvpn.process = none ↔
      (stopOpenvpn w o).2.openvpn.process = none := by
    rw [stopAllTunnels, (stopWarp_wireguard ..).2, stopOpenvpn_process, stopOpenvpn_process,
      (stopWireguard_openvpn ..).1]
  have hwarp : (stopAllTunnels w o).warp = false ↔
      (w.warp = true → o.warpInstalled = true ∧ o.daemon = true ∧ o.warpDisconnect = true) := by
    rw [stopAllTunnels, stopWarp_warp, (stopOpenvpn_wireguard ..).2, (stopWireguard_openvpn ..).2]
  rw [World.Quiet, hwireguard, hopenvpn, hwarp, stopOpenvpn_process]
  exact ⟨fun ⟨h₁, h₂, h₃⟩ => ⟨h₁, h₂, h₃⟩, fun h => ⟨h.wireguard, h.openvpn, h.warp⟩⟩

/-- **A successful disconnect ends every tunnel** exactly where each one that is up is reached by a
command that works, or it is no success because of the settings or the log. -/
theorem disconnect_ends_tunnels_iff (w : World) (o : Outcomes) :
    ((disconnect w o).1 = .ok () → (disconnect w o).2.Quiet) ↔
      (o.Undisturbed w.settings → Reached w o) := by
  unfold disconnect
  split
  · next hread =>
    refine iff_of_true nofun fun h => ?_
    rw [h.1] at hread
    cases hread
  · next hread =>
    split
    · next hannounced =>
      refine iff_of_true nofun fun h => ?_
      rw [h.2.1 hannounced.1] at hannounced
      cases hannounced.2
    · next hannounced =>
      dsimp only
      split
      · next hstored =>
        refine iff_of_true nofun fun h => ?_
        rw [h.2.2.1] at hstored
        cases hstored
      · next hstored =>
        split
        · next hlogged =>
          refine iff_of_true nofun fun h => ?_
          rw [h.2.2.2] at hlogged
          cases hlogged
        · next hlogged =>
          have hundisturbed : o.Undisturbed w.settings :=
            ⟨eq_true_of_ne_false hread,
              fun h => eq_true_of_ne_false fun hno => hannounced ⟨h, hno⟩,
              eq_true_of_ne_false hstored, eq_true_of_ne_false hlogged⟩
          have hquiet := quiet_stopAllTunnels_iff w o
          exact ⟨fun h _ => hquiet.mp (h rfl), fun h _ => hquiet.mpr (h hundisturbed)⟩

/-- Everything works but for the deletion of WireGuard's interface. -/
def linkStays : Outcomes :=
  ⟨false, true, true, true, true, true, true, true, true, true, true, true, true⟩

/-- WireGuard is connected. -/
def wireguardUp : World :=
  ⟨true, ⟨none, none, none, []⟩, false, ["default"],
    ⟨some .wireguard, some "1", some "Home", .connected, none, some "now", none, none⟩⟩

/-- The interface stays, and success is reported and `off` stored. -/
theorem disconnect_leaves_wireguard :
    ¬∀ (w : World) (o : Outcomes), (disconnect w o).1 = .ok () → (disconnect w o).2.Quiet := by
  intro h
  have hquiet := h wireguardUp linkStays rfl
  cases hquiet.1

/-! ## In the manager

The manager's commands only tell it whether a tunnel is down after its stop. -/

section Manager

open Effect

/-- The state of the manager has these tunnels, routes and settings. -/
structure Shows (w : World) (s : State) : Prop where
  /-- WireGuard -/
  wireguard : s.level .wireguard = .down ↔ w.wireguard = false
  /-- OpenVPN -/
  openvpn : s.level .openvpn = .down ↔ w.openvpn.process = none
  /-- WARP -/
  warp : s.level .warp = .down ↔ w.warp = false
  /-- the bypass table -/
  bypass : s.bypass = w.bypass
  /-- the settings -/
  settings : s.settings = w.settings

/-- What a stop tells the manager. -/
def stopped (down : Prop) [Decidable down] : Stopped :=
  ⟨if down then none else some "the tunnel is still up", false⟩

variable {s : State} {t u : Tunnel}

theorem stop_level {down : Prop} [Decidable down] : (s.stop t (stopped down)).level u =
    if down ∧ u = t then .down else s.level u := by
  by_cases hdown : down
  · simp [State.stop, stopped, hdown, State.setLevel, State.record]
  · simp [State.stop, stopped, hdown, State.record]

theorem stop_rest {x : Stopped} :
    (s.stop t x).bypass = s.bypass ∧ (s.stop t x).settings = s.settings := by
  unfold State.stop
  split <;> exact ⟨rfl, rfl⟩

/-- A tunnel that its stop leaves down is down; one that it leaves up was up. -/
theorem level_stop_iff {down was : Prop} [Decidable down] (h : s.level t = .down ↔ was)
    (hwas : was → down) : (s.stop t (stopped down)).level t = .down ↔ down := by
  rw [stop_level]
  by_cases hdown : down
  · simp [hdown]
  · rw [if_neg fun h => hdown h.1]
    exact iff_of_false (fun hlevel => hdown (hwas (h.mp hlevel))) hdown

theorem level_stop_ne {down : Prop} [Decidable down] (hne : u ≠ t) :
    (s.stop t (stopped down)).level u = s.level u := by
  rw [stop_level, if_neg fun h => hne h.2]

theorem Shows.stopWireguard (h : Shows w s) (o : Outcomes) : Shows (stopWireguard w o).2
    (s.stop .wireguard (stopped ((stopWireguard w o).2.wireguard = false))) where
  wireguard := level_stop_iff h.wireguard fun hw => by
    rw [Stop.stopWireguard]
    split
    · rfl
    · exact hw
  openvpn := by rw [level_stop_ne (by decide), (stopWireguard_openvpn w o).1, h.openvpn]
  warp := by rw [level_stop_ne (by decide), (stopWireguard_openvpn w o).2, h.warp]
  bypass := by
    rw [stop_rest.1, h.bypass, Stop.stopWireguard]
    split <;> rfl
  settings := by
    rw [stop_rest.2, h.settings, Stop.stopWireguard]
    split <;> rfl

theorem Shows.stopOpenvpn (h : Shows w s) (o : Outcomes) : Shows (stopOpenvpn w o).2
    (s.stop .openvpn (stopped ((stopOpenvpn w o).2.openvpn.process = none))) where
  wireguard := by rw [level_stop_ne (by decide), (stopOpenvpn_wireguard w o).1, h.wireguard]
  openvpn := level_stop_iff h.openvpn fun hprocess => by
    rw [stopOpenvpn_process, hprocess]
    rintro _ ⟨⟩
  warp := by rw [level_stop_ne (by decide), (stopOpenvpn_wireguard w o).2, h.warp]
  bypass := by
    rw [stop_rest.1, h.bypass, Stop.stopOpenvpn]
    dsimp only
    repeat' split
    all_goals rfl
  settings := by
    rw [stop_rest.2, h.settings, Stop.stopOpenvpn]
    dsimp only
    repeat' split
    all_goals rfl

theorem Shows.stopWarp (h : Shows w s) (o : Outcomes) : Shows (stopWarp w o).2
    (s.stop .warp (stopped ((stopWarp w o).2.warp = false))) where
  wireguard := by rw [level_stop_ne (by decide), (stopWarp_wireguard w o).1, h.wireguard]
  openvpn := by rw [level_stop_ne (by decide), (stopWarp_wireguard w o).2, h.openvpn]
  warp := level_stop_iff h.warp fun hwarp => by
    rw [stopWarp_warp, hwarp]
    rintro ⟨⟩
  bypass := by
    rw [stop_rest.1, h.bypass, Stop.stopWarp]
    repeat' split
    all_goals rfl
  settings := by
    rw [stop_rest.2, h.settings, Stop.stopWarp]
    repeat' split
    all_goals rfl

/-- A message that is written or not. -/
theorem effect_log (i : ℕ) (s : State) (level : LogLevel) (source category : String)
    (x : Except String Unit) : effect i s (.log level source category) x = some s := rfl

/-- Settings that cannot be stored. -/
theorem effect_notStored (i : ℕ) (s : State) (patch : Settings → Settings) (message : String) :
    effect i s (.updateVpnState patch) (.error message) = some s := rfl

/-- The announcement is made, or there is nothing to announce. -/
theorem runs_announced {settings : Settings} {m : Op Unit} {r : Except Failure Unit} {i : ℕ}
    {s' : State} (h : Runs (effect i) m s r s') :
    Runs (effect i) (announceDisconnect settings >>= fun _ => m) s r s' := by
  rw [announceDisconnect]
  split
  · exact .call (effect_log i s .info "vpn" "disconnect" (.ok ())) h
  · exact h

/-- The three stops one after the other. -/
theorem runs_stopAllTunnels {m : Op Unit} {r : Except Failure Unit} {i : ℕ} {s' : State}
    (x y z : Stopped)
    (h : Runs (effect i) m (((s.stop .wireguard x).stop .openvpn y).stop .warp z) r s') :
    Runs (effect i) (Vpn.stopAllTunnels >>= fun _ => m) s r s' := by
  have hstop : ∀ s t x, effect i s (.stop t) x = some (s.stop t x) := fun _ _ _ => rfl
  exact .call (hstop _ _ x) (.call (hstop _ _ y) (.call (hstop _ _ z) h))

/-- **The stops are a run of the manager.** With the same outcomes it succeeds or fails as
`disconnect` does here, and has the same tunnels, routes and settings in the end. -/
theorem disconnectTunnels_runs (h : Shows w s) (o : Outcomes) (i : ℕ) :
    ∃ r s', Runs (effect i) disconnectTunnels s r s' ∧
      (r = .ok () ↔ (disconnect w o).1 = .ok ()) ∧ Shows (disconnect w o).2 s' := by
  have hget : effect i s .getSettings (.ok s.settings) = some s := if_pos rfl
  have hunread : effect i s .getSettings (.error "the settings cannot be read") = some s := rfl
  have hclean : ∀ s, effect i s .cleanupBypassRouting () = some { s with bypass := [] } :=
    fun _ => rfl
  have hstore : ∀ s, effect i s (.updateVpnState fun _ => off) (.ok ()) =
    some { s with settings := off } := fun _ => rfl
  obtain ⟨x, y, z, hstops⟩ : ∃ x y z, Shows (stopAllTunnels w o)
      (((s.stop .wireguard x).stop .openvpn y).stop .warp z) :=
    ⟨_, _, _, ((h.stopWireguard o).stopOpenvpn o).stopWarp o⟩
  unfold disconnect
  split
  · exact ⟨.error (.other "the settings cannot be read"), s, .call hunread .throw, by simp, h⟩
  split
  · next hannounced =>
    have hsays : s.settings.vpnStatus ≠ .off ∨ s.settings.activeVpnType ≠ none := by
      rw [h.settings]
      simpa [announces] using hannounced.1
    refine ⟨.error (.other "the log cannot be written"), s, .call hget ?_, by simp, h⟩
    have hsilent := effect_log i s .info "vpn" "disconnect" (.error "the log cannot be written")
    change Runs (effect i) (announceDisconnect s.settings >>= fun _ => _) s _ s
    rw [announceDisconnect, if_pos hsays]
    exact .call hsilent .throw
  dsimp only
  split
  · refine ⟨.error (.other "the settings cannot be stored"), _, .call hget (runs_announced
      (runs_stopAllTunnels x y z (.call (hclean _) (.call
        (effect_notStored i _ _ "the settings cannot be stored") .throw)))), by simp, ?_⟩
    exact ⟨hstops.wireguard, hstops.openvpn, hstops.warp, rfl, hstops.settings⟩
  split
  · refine ⟨.error (.other "the log cannot be written"), _, .call hget (runs_announced
      (runs_stopAllTunnels x y z (.call (hclean _) (.call (hstore _) (.call
        (effect_log i _ .info "vpn" "disconnected" (.error "the log cannot be written"))
        .throw))))), by simp, ?_⟩
    exact ⟨hstops.wireguard, hstops.openvpn, hstops.warp, rfl, rfl⟩
  · refine ⟨.ok (), _, .call hget (runs_announced
      (runs_stopAllTunnels x y z (.call (hclean _) (.call (hstore _) (.call
        (effect_log i _ .info "vpn" "disconnected" (.ok ())) .pure))))), by simp, ?_⟩
    exact ⟨hstops.wireguard, hstops.openvpn, hstops.warp, rfl, rfl⟩

end Manager

end IptvProxy.Vpn.Stop
