import IptvProxy.Lib.Program
import IptvProxy.Lib.Forwarding
import IptvProxy.Vpn.Config
import IptvProxy.Vpn.Stop

/-!
# The routes of a WireGuard tunnel

`buildRuntimeConfig`, `startConnection` and `stopConnection` of `lib/services/vpn/wireguard.ts` over
the routes of the main table. A profile for all traffic does not replace the default route: two
routes for the two halves of the addresses are put before it.

Every route is an old one, one through the tunnel, or the one to the endpoint whose address is
stored in a file (`Sound`). From this it follows where packets go while the tunnel is up
(`no_packet_takes_default_route`), and that nothing is left of it when it has been taken down or did
not come up (`routes_are_given_back`).
-/

namespace IptvProxy.Vpn.Wireguard

open Js GoText Effect Config Forwarding

/-! ## The configuration -/

/-- `[A-Za-z]` -/
def isLetter (c : Char) : Bool :=
  (65 ≤ c.toNat && c.toNat ≤ 90) || (97 ≤ c.toNat && c.toNat ≤ 122)

/-- `\d` -/
def isDigit (c : Char) : Bool := 48 ≤ c.toNat && c.toNat ≤ 57

/-- `FORBIDDEN_DIRECTIVES` -/
def FORBIDDEN_DIRECTIVES : List Text :=
  ["preup".toList, "postup".toList, "predown".toList, "postdown".toList]

/-- `directiveName` -/
def directiveName (line : Text) : Option Text :=
  let name := line.takeWhile fun c => isLetter c || isDigit c
  let rest := line.dropWhile fun c => isLetter c || isDigit c
  if name.head?.any isLetter ∧ (trimStart rest).head? = some '=' then some (lowerAscii name)
  else none

/-- `directiveValue` -/
def directiveValue (line : Text) : Text := trim ((line.dropWhile (· ≠ '=')).drop 1)

/-- The parts between commas that are not blank. -/
def items (value : Text) : List Text := ((value.splitOn ',').map trim).filter (· ≠ [])

/-- The number of a text of digits. -/
def number (digits : Text) : ℕ := digits.foldl (fun n c => 10 * n + (c.toNat - '0'.toNat)) 0

/-- `Number.parseInt(…, 10)`, where it is not negative. -/
def parseInt (s : Text) : Option ℕ :=
  let s := trimStart s
  let digits := (if s.head? = some '+' then s.drop 1 else s).takeWhile isDigit
  if digits = [] then none else some (number digits)

/-- `/^\[([^\]]+)\]:(\d+)$/` -/
def bracketed (endpoint : Text) : Option Text :=
  match endpoint with
  | '[' :: rest =>
    let host := rest.takeWhile (· ≠ ']')
    match rest.dropWhile (· ≠ ']') with
    | ']' :: ':' :: port => if host ≠ [] ∧ port ≠ [] ∧ port.all isDigit then some host else none
    | _ => none
  | _ => none

/-- What `.` does not match. -/
def isLineTerminator (c : Char) : Bool :=
  c.toNat = 10 || c.toNat = 13 || c.toNat = 0x2028 || c.toNat = 0x2029

/-- `/^(.+):(\d+)$/` -/
def regular (endpoint : Text) : Option Text :=
  let port := endpoint.reverse.takeWhile isDigit
  match endpoint.reverse.dropWhile isDigit with
  | ':' :: host =>
    if host ≠ [] ∧ port ≠ [] ∧ host.any isLineTerminator = false then some host.reverse else none
  | _ => none

/-- `RuntimeWireguardConfig`; `setconf` as the list of its lines. -/
structure RuntimeWireguardConfig where
  /-- `setconf` -/
  setconf : List Text
  /-- `addresses` -/
  addresses : List Text
  /-- `mtu` -/
  mtu : ℕ
  /-- `endpointHost` -/
  endpointHost : Option Text
  /-- `allowedIps` -/
  allowedIps : List Text
  deriving DecidableEq

/-- The body of the loop of `buildRuntimeConfig`. -/
def runtimeLine (c : RuntimeWireguardConfig) (originalLine : Text) : RuntimeWireguardConfig :=
  let line := trim originalLine
  let kept := { c with setconf := c.setconf ++ [originalLine] }
  if line = [] ∨ line.head? = some '#' then kept
  else (directiveName line).elim kept fun directive =>
    if FORBIDDEN_DIRECTIVES.contains directive then c
    else if directive = "address".toList then
      { c with addresses := c.addresses ++ items (directiveValue line) }
    else if directive = "dns".toList ∨ directive = "table".toList then c
    else if directive = "mtu".toList then
      let parsed := (parseInt (directiveValue line)).filter fun n => 576 ≤ n ∧ n ≤ 9000
      { c with mtu := parsed.getD c.mtu }
    else if directive = "endpoint".toList then
      let endpoint := directiveValue line
      let host := (bracketed endpoint).getD ((regular endpoint).getD endpoint)
      { kept with endpointHost := some host }
    else if directive = "allowedips".toList then
      { kept with allowedIps := c.allowedIps ++ items (directiveValue line) }
    else kept

/-- `buildRuntimeConfig` -/
def buildRuntimeConfig (rawConfig : Text) : Except String RuntimeWireguardConfig :=
  let c := (splitLines rawConfig).foldl runtimeLine ⟨[], [], 1420, none, []⟩
  if c.addresses = [] then .error "WireGuard configuration must include an Interface Address."
  else if c.allowedIps = [] then .error "WireGuard configuration must include Peer AllowedIPs."
  else .ok c

/-! ## The network -/

/-- `WG_INTERFACE` -/
def WG_INTERFACE : Text := "wg0".toList

/-- Where a route leads. -/
structure Route where
  /-- `via` -/
  gateway : Option Text
  /-- `dev` -/
  device : Text
  deriving DecidableEq

/-- A destination: the bits of its address. -/
abbrev Address : Type := List Bool

/-- What iproute2 and the kernel make of texts. -/
structure Iproute where
  /-- a destination of `ip route` -/
  prefixOf : Text → Option Address
  /-- the network that an address of an interface is in, if it gets a route -/
  connected : Text → Option Address

/-- How iproute2 reads the two halves. -/
structure Iproute.Reads (I : Iproute) : Prop where
  /-- the lower half -/
  low : I.prefixOf "0.0.0.0/1".toList = some [false]
  /-- the upper half -/
  high : I.prefixOf "128.0.0.0/1".toList = some [true]

/-- What the commands work on. -/
structure Net where
  /-- the interface is there -/
  link : Bool
  /-- its addresses -/
  addresses : List Text
  /-- the main table -/
  routes : Table Bool Route
  /-- `ENDPOINT_ROUTE_PATH` -/
  endpoint : Option Text
  deriving DecidableEq

/-- The commands; files that are only written are left out. -/
inductive Cmd where
  /-- `fs.mkdirSync` and the two configuration files -/
  | writeFiles
  /-- `ip link delete` -/
  | linkDelete
  /-- the text of `ENDPOINT_ROUTE_PATH` -/
  | readEndpoint
  /-- `ip route delete` -/
  | routeDelete (destination : Text)
  /-- `fs.unlinkSync`, and whether `ENDPOINT_ROUTE_PATH` is gone -/
  | unlink
  /-- `getent ahostsv4` -/
  | getent (host : Text)
  /-- `ip route show default` -/
  | showDefault
  /-- `ip route replace` -/
  | routeReplace (destination : Text) (route : Route)
  /-- `ENDPOINT_ROUTE_PATH` is written -/
  | writeEndpoint (ip : Text)
  /-- `ip link add` -/
  | linkAdd
  /-- `wg setconf` -/
  | setconf (lines : List Text)
  /-- `ip address add` -/
  | addressAdd (address : Text)
  /-- `ip link set … up` -/
  | linkUp (mtu : ℕ)
  /-- `ip link show` -/
  | linkShow
  /-- `LogService.info` -/
  | log

/-- The answers. -/
@[reducible] def Cmd.Answer : Cmd → Type
  | readEndpoint => Except String (Option Text)
  | unlink => Bool
  | getent _ => Except String Text
  | showDefault => Except String Text
  | _ => Except String Unit

/-- The kernel adds the route of a network, unless there is one. -/
def connect (I : Iproute) (t : Table Bool Route) (address : Text) : Table Bool Route :=
  match I.connected address with
  | none => t
  | some p => if (route t p).isSome then t else t ++ [(p, ⟨none, WG_INTERFACE⟩)]

variable (I : Iproute) (reliable : Bool)

/-- The destination has a route. -/
def Net.hasRoute (s : Net) (destination : Text) : Bool :=
  (I.prefixOf destination).any fun p => (route s.routes p).isSome

/-- What a command does; `none` if the answer is not possible. A network is reliable if the clean-up
fails only where there is nothing to clean up, and the file of the endpoint can be written. -/
def effect (s : Net) : (c : Cmd) → c.Answer → Option Net
  | .linkDelete, .ok _ =>
    if s.link = false then none
    else some { s with
      link := false
      addresses := []
      routes := s.routes.filter fun x => x.2.device ≠ WG_INTERFACE }
  | .linkDelete, .error _ => if reliable ∧ s.link then none else some s
  | .readEndpoint, .ok content => if content = s.endpoint then some s else none
  | .readEndpoint, .error _ => if reliable then none else some s
  | .routeDelete destination, .ok _ =>
    (I.prefixOf destination).map fun p => { s with routes := delete s.routes p }
  | .routeDelete destination, .error _ =>
    if reliable ∧ s.hasRoute I destination then none else some s
  | .unlink, gone => some (if gone then { s with endpoint := none } else s)
  | .routeReplace destination r, .ok _ =>
    if r.device = WG_INTERFACE ∧ s.link = false then none
    else (I.prefixOf destination).map fun p => { s with routes := replace s.routes p r }
  | .writeEndpoint ip, .ok _ => some { s with endpoint := some ip }
  | .writeEndpoint _, .error _ => if reliable then none else some s
  | .linkAdd, .ok _ => if s.link then none else some { s with link := true, addresses := [] }
  | .addressAdd address, .ok _ => some { s with addresses := s.addresses ++ [address] }
  | .linkUp _, .ok _ =>
    if s.link = false then none
    else some { s with routes := s.addresses.foldl (connect I) s.routes }
  | _, _ => some s

/-! ## The connection -/

/-- A program over the commands. -/
abbrev Op := Program Cmd Cmd.Answer String

/-- One command. -/
abbrev perform (c : Cmd) : Op c.Answer := Program.perform c

/-- `run`, where the output is not read. -/
abbrev run (c : Cmd) (h : c.Answer = Except String Unit := by rfl) : Op Unit :=
  Program.call c fun x => Program.ofExcept (cast h x)

/-- `/^\d{1,3}(?:\.\d{1,3}){3}$/` -/
def isDottedQuad (host : Text) : Bool :=
  let numbers := host.splitOn '.'
  numbers.length = 4 && numbers.all fun n => n ≠ [] && n.length ≤ 3 && n.all isDigit

/-- The first line of an output that is not blank. -/
def firstLine (output : Text) : Option Text :=
  ((output.splitOn '\n').map trim).find? fun line => line ≠ []

/-- `resolveEndpointIpv4` -/
def resolveEndpointIpv4 (host : Text) : Op (Option Text) := do
  if isDottedQuad host then return some host
  else match ← perform (.getent host) with
    | .error _ => return none
    | .ok output => return (firstLine (trim output)).bind fun line => (parts line).head?

/-- `\w` -/
def isWord (c : Char) : Bool := isLetter c || isDigit c || c = '_'

/-- The word behind a label that begins a word, as `/\bvia\s+(\S+)/` finds it. -/
def wordAfter (label : Text) : Bool → Text → Option Text
  | _, [] => none
  | inWord, c :: s =>
    let rest := (c :: s).drop label.length
    if inWord = false ∧ label.isPrefixOf (c :: s) ∧ rest.head?.any isSpace ∧
        trimStart rest ≠ [] then
      some ((trimStart rest).takeWhile fun c => !isSpace c)
    else wordAfter label (isWord c) s

/-- `getDefaultRoute` -/
def getDefaultRoute : Op (Option Text × Option Text) := do
  let output ← Program.ofExcept (← perform .showDefault)
  let line := (firstLine (trim output)).getD []
  return (wordAfter "via".toList false line, wordAfter "dev".toList false line)

/-- The destination of one address. -/
def host32 (ip : Text) : Text := ip ++ "/32".toList

/-- The end of `addEndpointBypassRoute`, for the gateway and the device of the default route. -/
def addHostRoute (endpointIp : Text) : Option Text × Option Text → Op Unit
  | (_, none) => throw "Unable to determine the container default network interface."
  | (gateway, some device) => do
    run (.routeReplace (host32 endpointIp) ⟨gateway, device⟩)
    run (.writeEndpoint endpointIp)

/-- `addEndpointBypassRoute` -/
def addEndpointBypassRoute : Option Text → Op Unit
  | none => return ()
  | some host =>
    if host = [] ∨ ':' ∈ host then return ()
    else do
      match ← resolveEndpointIpv4 host with
      | none => throw s!"Unable to resolve WireGuard endpoint {String.ofList host}."
      | some endpointIp => addHostRoute endpointIp (← getDefaultRoute)

/-- The destinations that an entry of `AllowedIPs` is installed as. -/
def destinations (cidr : Text) : List Text :=
  if ':' ∈ cidr then []
  else if cidr = "0.0.0.0/0".toList then ["0.0.0.0/1".toList, "128.0.0.0/1".toList]
  else [cidr]

/-- The loop of `installAllowedIpRoutes` over one entry and over all. -/
def installRoutes : List Text → Op Unit
  | [] => return ()
  | destination :: rest => do
    run (.routeReplace destination ⟨none, WG_INTERFACE⟩)
    installRoutes rest

/-- `installAllowedIpRoutes` -/
def installAllowedIpRoutes (allowedIps : List Text) : Op Unit :=
  installRoutes (allowedIps.flatMap destinations)

/-- The part of `cleanupRuntimeNetwork` that deletes the route to the endpoint. -/
def deleteEndpointRoute : Except String (Option Text) → Op Unit
  | .ok (some content) => do
    if trim content ≠ [] then
      let _ ← perform (.routeDelete (host32 (trim content)))
  | _ => pure ()

/-- `cleanupRuntimeNetwork` -/
def cleanupRuntimeNetwork : Op Unit := do
  let _ ← perform .linkDelete
  let file ← perform .readEndpoint
  deleteEndpointRoute file
  let _ ← perform .unlink

/-- The loop over the addresses. -/
def addAddresses : List Text → Op Unit
  | [] => return ()
  | address :: rest => do
    if ':' ∈ address then pure () else run (.addressAdd address)
    addAddresses rest

/-- The body of the `try` of `startConnection`. -/
def bringUp (config : Text) : Op Unit := do
  run .writeFiles
  cleanupRuntimeNetwork
  let runtime ← Program.ofExcept (buildRuntimeConfig config)
  run .writeFiles
  addEndpointBypassRoute runtime.endpointHost
  run .linkAdd
  run (.setconf runtime.setconf)
  addAddresses runtime.addresses
  run (.linkUp runtime.mtu)
  installAllowedIpRoutes runtime.allowedIps
  run .linkShow
  run .log

/-- `startConnection`: the error, if there is one -/
def startConnection (config : Text) : Op (Option String) := do
  match ← (bringUp config).attempt with
  | .ok () => return none
  | .error message =>
    cleanupRuntimeNetwork
    return some s!"WireGuard startup failed: {message}"

/-- `stopConnection` -/
def stopConnection : Op Unit := cleanupRuntimeNetwork

/-! ## What is in the table -/

variable {I reliable} {t₀ : Table Bool Route} {config : Text} {s : Net} {x : Address × Route}

/-- No command of the connection names the destination of the route. -/
structure Untouched (I : Iproute) (config : Text) (x : Address × Route) : Prop where
  /-- it is not a route of a tunnel -/
  device : x.2.device ≠ WG_INTERFACE
  /-- it does not lead to a single address -/
  host : ∀ ip, I.prefixOf (host32 ip) ≠ some x.1
  /-- it does not lead to a destination of the profile -/
  allowed : ∀ runtime, buildRuntimeConfig config = .ok runtime →
    ∀ d ∈ runtime.allowedIps.flatMap destinations, I.prefixOf d ≠ some x.1

/-- The routes that are not touched are there. -/
def Kept (I : Iproute) (config : Text) (t₀ : Table Bool Route) (s : Net) : Prop :=
  ∀ x ∈ t₀, Untouched I config x → x ∈ s.routes

/-- There are only old routes. -/
def Old (I : Iproute) (config : Text) (t₀ : Table Bool Route) (s : Net) : Prop :=
  (∀ x ∈ s.routes, x ∈ t₀) ∧ Kept I config t₀ s

/-- The route leads to the address in the file. -/
def ToEndpoint (I : Iproute) (s : Net) (x : Address × Route) : Prop :=
  ∃ ip, s.endpoint = some ip ∧ trim ip ≠ [] ∧ I.prefixOf (host32 (trim ip)) = some x.1

/-- A route is old, one through the tunnel, or the one to the endpoint. -/
def Sound (I : Iproute) (config : Text) (t₀ : Table Bool Route) (s : Net) : Prop :=
  (∀ x ∈ s.routes, x ∈ t₀ ∨ (x.2.device = WG_INTERFACE ∧ s.link = true) ∨ ToEndpoint I s x) ∧
    Kept I config t₀ s

theorem Old.sound (h : Old I config t₀ s) : Sound I config t₀ s :=
  ⟨fun x hx => .inl (h.1 x hx), h.2⟩

/-- The system of the commands. -/
abbrev network (I : Iproute) (reliable : Bool) : Protocol Cmd Cmd.Answer Net :=
  .ofEffect (effect I reliable)

variable {Q : Unit → Net → Prop} {R : String → Net → Prop}

/-- The rule of a command. -/
theorem follows_run {c : Cmd} (h : c.Answer = Except String Unit) :
    Follows (network I reliable) (run c h) s Q R ↔ ∀ x s', effect I reliable s c x = some s' →
      (∀ u, cast h x = .ok u → Q u s') ∧ ∀ e, cast h x = .error e → R e s' := by
  change (True ∧ ∀ x q, _ → Follows _ (Program.ofExcept _) _ _ _) ↔ _
  simp only [true_and, follows_ofExcept]
  rfl

/-! ### Cleaning up -/

section Cleanup

variable {s' : Net}

/-- What the deletion of the interface does. -/
theorem linkDelete_cases {answer : Except String Unit}
    (h : effect I reliable s .linkDelete answer = some s') :
    (s'.routes = s.routes.filter (fun x => x.2.device ≠ WG_INTERFACE) ∧ s'.endpoint = s.endpoint) ∨
      (s' = s ∧ (reliable = true → s.link = false)) := by
  cases answer with
  | ok u =>
    rw [effect, Option.ite_none_left_eq_some] at h
    obtain rfl := Option.some.inj h.2
    exact .inl ⟨rfl, rfl⟩
  | error e =>
    rw [effect, Option.ite_none_left_eq_some] at h
    obtain rfl := Option.some.inj h.2
    refine .inr ⟨rfl, fun hreliable => ?_⟩
    cases hlink : s.link with
    | false => rfl
    | true => exact absurd ⟨hreliable, hlink⟩ h.1

/-- What the deletion of a route does. -/
theorem routeDelete_cases {answer : Except String Unit} {destination : Text}
    (h : effect I reliable s (.routeDelete destination) answer = some s') :
    (∃ p, I.prefixOf destination = some p ∧ s' = { s with routes := delete s.routes p }) ∨
      (s' = s ∧ (reliable = true → s.hasRoute I destination = false)) := by
  cases answer with
  | ok u =>
    obtain ⟨p, hp, rfl⟩ := Option.map_eq_some_iff.mp h
    exact .inl ⟨p, hp, rfl⟩
  | error e =>
    rw [effect, Option.ite_none_left_eq_some] at h
    obtain rfl := Option.some.inj h.2
    refine .inr ⟨rfl, fun hreliable => ?_⟩
    cases hroute : s.hasRoute I destination with
    | false => rfl
    | true => exact absurd ⟨hreliable, hroute⟩ h.1

theorem Kept.linkDelete {answer : Except String Unit} (h : Kept I config t₀ s)
    (heffect : effect I reliable s .linkDelete answer = some s') : Kept I config t₀ s' := by
  rcases linkDelete_cases heffect with ⟨hroutes, -⟩ | ⟨rfl, -⟩
  · intro x hx huntouched
    rw [hroutes, List.mem_filter]
    exact ⟨h x hx huntouched, by simpa using huntouched.device⟩
  · exact h

theorem Kept.routeDelete {answer : Except String Unit} {ip : Text} (h : Kept I config t₀ s)
    (heffect : effect I reliable s (.routeDelete (host32 ip)) answer = some s') :
    Kept I config t₀ s' := by
  rcases routeDelete_cases heffect with ⟨p, hp, rfl⟩ | ⟨rfl, -⟩
  · intro x hx huntouched
    exact mem_delete.mpr ⟨h x hx huntouched, fun heq => huntouched.host ip (by rw [hp, heq])⟩
  · exact h

theorem Old.linkDelete {answer : Except String Unit} (h : Old I config t₀ s)
    (heffect : effect I reliable s .linkDelete answer = some s') : Old I config t₀ s' := by
  refine ⟨fun x hx => ?_, h.2.linkDelete heffect⟩
  rcases linkDelete_cases heffect with ⟨hroutes, -⟩ | ⟨rfl, -⟩
  · rw [hroutes] at hx
    exact h.1 x (List.mem_of_mem_filter hx)
  · exact h.1 x hx

theorem Old.routeDelete {answer : Except String Unit} {ip : Text} (h : Old I config t₀ s)
    (heffect : effect I reliable s (.routeDelete (host32 ip)) answer = some s') :
    Old I config t₀ s' := by
  refine ⟨fun x hx => ?_, h.2.routeDelete heffect⟩
  rcases routeDelete_cases heffect with ⟨p, -, rfl⟩ | ⟨rfl, -⟩
  · exact h.1 x (mem_delete.mp hx).1
  · exact h.1 x hx

/-- Reading the file changes nothing, and a reliable file is what was written. -/
theorem readEndpoint_cases {answer : Except String (Option Text)}
    (h : effect I reliable s .readEndpoint answer = some s') :
    s' = s ∧ (reliable = true → answer = .ok s.endpoint) := by
  cases answer with
  | ok content =>
    rw [effect, Option.ite_none_right_eq_some] at h
    exact ⟨(Option.some.inj h.2).symm, fun _ => by rw [h.1]⟩
  | error e =>
    rw [effect, Option.ite_none_left_eq_some] at h
    exact ⟨(Option.some.inj h.2).symm, fun hreliable => absurd hreliable h.1⟩

theorem routes_unlink {gone : Bool} (h : effect I reliable s .unlink gone = some s') :
    s'.routes = s.routes := by
  obtain rfl := Option.some.inj h
  cases gone <;> rfl

theorem Old.of_routes (h : Old I config t₀ s) (hroutes : s'.routes = s.routes) :
    Old I config t₀ s' := by
  rwa [Old, Kept, hroutes]

/-- The rule of the clean-up: it ends in `Old` if the deletion of the interface and of the route in
the file do. -/
theorem follows_cleanup
    (h : ∀ answer s₁, effect I reliable s .linkDelete answer = some s₁ →
      ∀ file s₂, effect I reliable s₁ .readEndpoint file = some s₂ →
        (∀ content, file = .ok (some content) → trim content ≠ [] →
          ∀ answer' s₃, effect I reliable s₂ (.routeDelete (host32 (trim content))) answer' =
            some s₃ → Old I config t₀ s₃) ∧
        ((∀ content, file = .ok (some content) → trim content = []) → Old I config t₀ s₂)) :
    Follows (network I reliable) cleanupRuntimeNetwork s (fun _ => Old I config t₀) R := by
  refine follows_bind.mpr ⟨trivial, fun answer s₁ h₁ => ?_⟩
  refine follows_bind.mpr ⟨trivial, fun file s₂ h₂ => ?_⟩
  obtain ⟨hdelete, hleave⟩ := h answer s₁ h₁ file s₂ h₂
  have hroute : Follows (network I reliable) (deleteEndpointRoute file) s₂
      (fun _ => Old I config t₀) R := by
    rcases file with e | (_ | content)
    · exact hleave fun _ hfile => by cases hfile
    · exact hleave fun _ hfile => by cases hfile
    · rw [deleteEndpointRoute, follows_ite]
      refine ⟨fun hcontent => ?_, fun hcontent => ?_⟩
      · exact follows_bind.mpr ⟨trivial, fun answer' s₃ h₃ => hdelete content rfl hcontent _ _ h₃⟩
      · refine hleave fun content' hfile => ?_
        obtain rfl := Option.some.inj (Except.ok.inj hfile)
        exact not_not.mp hcontent
  refine follows_bind.mpr (hroute.mono (fun _ s₃ hold => ?_) fun _ _ => id)
  refine follows_bind.mpr ⟨trivial, fun gone s₄ h₄ => ?_⟩
  have heffect : effect I reliable s₃ .unlink gone = some s₄ := h₄
  exact hold.of_routes (routes_unlink heffect)

theorem link_routeDelete {destination : Text} {answer : Except String Unit}
    (h : effect I reliable s (.routeDelete destination) answer = some s') : s'.link = s.link := by
  cases answer with
  | ok u =>
    obtain ⟨p, -, rfl⟩ := Option.map_eq_some_iff.mp h
    rfl
  | error e =>
    rw [effect, Option.ite_none_left_eq_some] at h
    obtain rfl := Option.some.inj h.2
    rfl

/-- The interface is not there any more, or is as it was. -/
theorem follows_cleanup_link : Follows (network I reliable) cleanupRuntimeNetwork s
    (fun _ s' => s'.link = s.link ∨ s'.link = false) (fun _ _ => False) := by
  refine follows_bind.mpr ⟨trivial, fun answer s₁ h₁ => ?_⟩
  have hlink : s₁.link = s.link ∨ s₁.link = false := by
    have heffect : effect I reliable s .linkDelete answer = some s₁ := h₁
    cases answer with
    | ok u =>
      rw [effect, Option.ite_none_left_eq_some] at heffect
      obtain rfl := Option.some.inj heffect.2
      exact .inr rfl
    | error e =>
      rw [effect, Option.ite_none_left_eq_some] at heffect
      obtain rfl := Option.some.inj heffect.2
      exact .inl rfl
  refine follows_bind.mpr ⟨trivial, fun file s₂ h₂ => ?_⟩
  rw [← (readEndpoint_cases h₂).1] at hlink
  have hroute : Follows (network I reliable) (deleteEndpointRoute file) s₂
      (fun _ s₃ => s₃.link = s₂.link) (fun _ _ => False) := by
    rcases file with e | (_ | content)
    · exact rfl
    · exact rfl
    · rw [deleteEndpointRoute, follows_ite]
      refine ⟨fun _ => follows_bind.mpr ⟨trivial, fun answer' s₃ h₃ => ?_⟩, fun _ => rfl⟩
      exact link_routeDelete h₃
  refine follows_bind.mpr (hroute.mono (fun _ s₃ hsame => ?_) fun _ _ => id)
  rw [← hsame] at hlink
  refine follows_bind.mpr ⟨trivial, fun gone s₄ h₄ => ?_⟩
  obtain rfl := Option.some.inj h₄
  cases gone <;> exact hlink

/-- **`stopConnection` is the stop of the manager**, which only says whether `ip link delete`
works: every run ends with the interface that `Stop.stopWireguard` leaves, and reports success. -/
theorem stopConnection_refines {r : Except String Unit} {w : Stop.World} (o : Stop.Outcomes)
    (hruns : Runs (effect I reliable) stopConnection s r s') (hw : w.wireguard = s.link) :
    r = .ok () ∧ ∃ works,
      (Stop.stopWireguard w { o with linkDelete := works }).2.wireguard = s'.link := by
  have hends := follows_cleanup_link.of_runs hruns
  cases r with
  | error e => exact (hends.2 e rfl).elim
  | ok u =>
    refine ⟨rfl, ?_⟩
    rcases hends.1 u rfl with hsame | hgone
    · exact ⟨false, hw.trans hsame.symm⟩
    · exact ⟨true, hgone.symm⟩

/-- Old routes stay old. -/
theorem follows_cleanup_old (h : Old I config t₀ s) :
    Follows (network I reliable) cleanupRuntimeNetwork s (fun _ => Old I config t₀) R := by
  refine follows_cleanup fun answer s₁ h₁ file s₂ h₂ => ?_
  have hold := h.linkDelete h₁
  rw [(readEndpoint_cases h₂).1]
  exact ⟨fun content _ _ answer' s₃ h₃ => hold.routeDelete h₃, fun _ => hold⟩

/-- **A reliable clean-up leaves old routes only.** -/
theorem follows_cleanup_sound (hreliable : reliable = true) (h : Sound I config t₀ s) :
    Follows (network I reliable) cleanupRuntimeNetwork s (fun _ => Old I config t₀) R := by
  refine follows_cleanup fun answer s₁ h₁ file s₂ h₂ => ?_
  have hkept := h.2.linkDelete h₁
  have hrest : ∀ x ∈ s₁.routes, x ∈ t₀ ∨ ToEndpoint I s₁ x := by
    intro x hx
    rcases linkDelete_cases h₁ with ⟨hroutes, hendpoint⟩ | ⟨rfl, hlink⟩
    · rw [hroutes, List.mem_filter] at hx
      rcases h.1 x hx.1 with hold | ⟨hdevice, -⟩ | hto
      · exact .inl hold
      · simp [hdevice] at hx
      · rw [ToEndpoint, hendpoint]
        exact .inr hto
    · rcases h.1 x hx with hold | ⟨-, hup⟩ | hto
      · exact .inl hold
      · rw [hlink hreliable] at hup
        cases hup
      · exact .inr hto
  obtain ⟨rfl, hfile⟩ := readEndpoint_cases h₂
  refine ⟨fun content hcontent htrim answer' s₃ h₃ => ?_, fun hnone => ?_⟩
  · refine ⟨fun x hx => ?_, hkept.routeDelete h₃⟩
    rw [hfile hreliable] at hcontent
    have hendpoint := Except.ok.inj hcontent
    rcases routeDelete_cases h₃ with ⟨p, hp, rfl⟩ | ⟨rfl, hroute⟩
    · obtain ⟨hmem, hne⟩ := mem_delete.mp hx
      refine (hrest x hmem).resolve_right ?_
      rintro ⟨ip, hip, -, hbegins⟩
      obtain rfl := Option.some.inj (hendpoint.symm.trans hip)
      exact hne (Option.some.inj (hbegins.symm.trans hp))
    · refine (hrest x hx).resolve_right ?_
      rintro ⟨ip, hip, -, hbegins⟩
      obtain rfl := Option.some.inj (hendpoint.symm.trans hip)
      have hsome := route_isSome (t := s₃.routes) (p := x.1) (r := x.2) hx
      have hno := hroute hreliable
      rw [Net.hasRoute, hbegins, Option.any_some, hsome] at hno
      cases hno
  · refine ⟨fun x hx => (hrest x hx).resolve_right ?_, hkept⟩
    rintro ⟨ip, hip, htrim, -⟩
    exact htrim (hnone ip (by rw [hfile hreliable, hip]))

end Cleanup

/-! ### The address of the endpoint -/

theorem trim_of_no_space {ip : Text} (h : ∀ c ∈ ip, isSpace c = false) : trim ip = ip := by
  have hstart : ∀ s : Text, (∀ c ∈ s, isSpace c = false) → trimStart s = s :=
    fun s hs => dropWhile_of_head fun c hc => hs c (List.mem_of_mem_head? hc)
  rw [trim, trimEnd, hstart ip h, hstart _ fun c hc => h c (List.mem_reverse.mp hc),
    List.reverse_reverse]

/-- The pieces of a text have no separators, and the rest of the text are separators. -/
theorem splitOnP_spec {p : Char → Bool} (s : Text) :
    (∀ piece ∈ s.splitOnP p, ∀ c ∈ piece, p c = false) ∧
      ∀ c ∈ s, p c = true ∨ ∃ piece ∈ s.splitOnP p, c ∈ piece := by
  induction s with
  | nil => simp
  | cons c s ih =>
    obtain ⟨first, rest, hsplit⟩ := List.exists_cons_of_ne_nil (List.splitOnP_ne_nil p s)
    rw [hsplit] at ih
    rw [List.splitOnP_cons_eq_if_modifyHead, hsplit]
    by_cases hc : p c = true
    · rw [if_pos hc]
      refine ⟨?_, ?_⟩
      · intro piece hpiece d hd
        rcases List.mem_cons.mp hpiece with rfl | hpiece
        · cases hd
        · exact ih.1 piece hpiece d hd
      · intro d hd
        rcases List.mem_cons.mp hd with rfl | hd
        · exact .inl hc
        · exact (ih.2 d hd).imp_right fun ⟨piece, hpiece, hmem⟩ =>
            ⟨piece, List.mem_cons_of_mem _ hpiece, hmem⟩
    · rw [if_neg hc, List.modifyHead_cons]
      refine ⟨?_, ?_⟩
      · intro piece hpiece d hd
        rcases List.mem_cons.mp hpiece with rfl | hpiece
        · rcases List.mem_cons.mp hd with rfl | hd
          · simpa using hc
          · exact ih.1 first List.mem_cons_self d hd
        · exact ih.1 piece (List.mem_cons_of_mem _ hpiece) d hd
      · intro d hd
        rcases List.mem_cons.mp hd with rfl | hd
        · exact .inr ⟨_, List.mem_cons_self, List.mem_cons_self⟩
        · refine (ih.2 d hd).imp_right fun ⟨piece, hpiece, hmem⟩ => ?_
          rcases List.mem_cons.mp hpiece with rfl | hpiece
          · exact ⟨_, List.mem_cons_self, List.mem_cons_of_mem _ hmem⟩
          · exact ⟨piece, List.mem_cons_of_mem _ hpiece, hmem⟩

theorem isSpace_of_digit {c : Char} (h : isDigit c = true) : isSpace c = false := by
  simp only [isDigit, Bool.and_eq_true, decide_eq_true_eq] at h
  simp only [isSpace, Bool.or_eq_false_iff, Bool.and_eq_false_iff, decide_eq_false_iff_not]
  omega

theorem isDottedQuad_spec {host : Text} (h : isDottedQuad host = true) :
    host ≠ [] ∧ ∀ c ∈ host, isSpace c = false := by
  simp only [isDottedQuad, Bool.and_eq_true, decide_eq_true_eq, List.all_eq_true] at h
  refine ⟨?_, fun c hc => ?_⟩
  · rintro rfl
    exact absurd h.1 (by decide)
  · rcases (splitOnP_spec (p := (· == '.')) host).2 c hc with hdot | ⟨piece, hpiece, hmem⟩
    · obtain rfl := eq_of_beq hdot
      decide
    · rw [← List.splitOn_eq_splitOnP] at hpiece
      exact isSpace_of_digit ((h.2 piece hpiece).2 c hmem)

theorem parts_spec {line part : Text} (h : part ∈ parts line) :
    part ≠ [] ∧ ∀ c ∈ part, isSpace c = false := by
  obtain ⟨hmem, hne⟩ := List.mem_filter.mp h
  exact ⟨of_decide_eq_true hne, (splitOnP_spec line).1 part hmem⟩

/-- An address that has been resolved is a word. -/
theorem follows_resolve (host : Text) :
    Follows (network I reliable) (resolveEndpointIpv4 host) s
      (fun ip? s' => s' = s ∧ ∀ ip ∈ ip?, ip ≠ [] ∧ trim ip = ip) R := by
  rw [resolveEndpointIpv4]
  refine follows_ite.mpr ⟨fun hquad => ⟨rfl, fun ip hip => ?_⟩, fun _ => ?_⟩
  · obtain rfl := Option.some.inj hip
    obtain ⟨hne, hspace⟩ := isDottedQuad_spec hquad
    exact ⟨hne, trim_of_no_space hspace⟩
  · refine follows_bind.mpr ⟨trivial, fun answer s' hs' => ?_⟩
    have hsame : s' = s := (Option.some.inj hs').symm
    rcases answer with e | output
    · exact ⟨hsame, fun ip hip => by cases hip⟩
    · refine ⟨hsame, fun ip hip => ?_⟩
      obtain ⟨line, -, hpart⟩ := Option.bind_eq_some_iff.mp hip
      obtain ⟨hne, hspace⟩ := parts_spec (List.mem_of_mem_head? hpart)
      exact ⟨hne, trim_of_no_space hspace⟩

/-! ### Bringing the tunnel up -/

section Up

variable {s' : Net}

/-- The tunnel's own route. -/
def tunnelRoute : Route := ⟨none, WG_INTERFACE⟩

theorem Sound.of_same (h : Sound I config t₀ s) (hroutes : s'.routes = s.routes)
    (hlink : s.link = true → s'.link = true) (hendpoint : s'.endpoint = s.endpoint) :
    Sound I config t₀ s' := by
  refine ⟨fun x hx => ?_, ?_⟩
  · rw [hroutes] at hx
    rcases h.1 x hx with hold | ⟨hdevice, hup⟩ | hto
    · exact .inl hold
    · exact .inr (.inl ⟨hdevice, hlink hup⟩)
    · rw [ToEndpoint, hendpoint]
      exact .inr (.inr hto)
  · rw [Kept, hroutes]
    exact h.2

/-- Routes through the tunnel may be added, where no other route has to be kept. -/
theorem Sound.add (h : Sound I config t₀ s) (hlink : s.link = true) {t : Table Bool Route}
    (hnew : ∀ x ∈ t, x ∈ s.routes ∨ x.2.device = WG_INTERFACE)
    (hkeep : ∀ x ∈ s.routes, Untouched I config x → x ∈ t) :
    Sound I config t₀ { s with routes := t } := by
  refine ⟨fun x hx => ?_, fun x hx huntouched => hkeep x (h.2 x hx huntouched) huntouched⟩
  rcases hnew x hx with hmem | hdevice
  · exact h.1 x hmem
  · exact .inr (.inl ⟨hdevice, hlink⟩)

theorem mem_connect (addresses : List Text) (t : Table Bool Route) :
    (∀ x ∈ addresses.foldl (connect I) t, x ∈ t ∨ x.2.device = WG_INTERFACE) ∧
      ∀ x ∈ t, x ∈ addresses.foldl (connect I) t := by
  induction addresses generalizing t with
  | nil => exact ⟨fun _ => .inl, fun _ => id⟩
  | cons address addresses ih =>
    have hone : (∀ x ∈ connect I t address, x ∈ t ∨ x.2.device = WG_INTERFACE) ∧
        ∀ x ∈ t, x ∈ connect I t address := by
      rw [connect]
      split
      · exact ⟨fun _ => .inl, fun _ => id⟩
      · split
        · exact ⟨fun _ => .inl, fun _ => id⟩
        · refine ⟨fun x hx => ?_, fun x => List.mem_append_left _⟩
          rcases List.mem_append.mp hx with hx | hx
          · exact .inl hx
          · rw [List.mem_singleton.mp hx]
            exact .inr rfl
    obtain ⟨hnew, hkeep⟩ := ih (connect I t address)
    refine ⟨fun x hx => ?_, fun x hx => hkeep x (hone.2 x hx)⟩
    rcases hnew x hx with hx | hdevice
    · exact hone.1 x hx
    · exact .inr hdevice

/-- While the tunnel comes up. -/
def Coming (I : Iproute) (config : Text) (t₀ : Table Bool Route) (s : Net) : Prop :=
  Sound I config t₀ s ∧ s.link = true

/-- What is left after an error, if the network is reliable. -/
abbrev Failed (I : Iproute) (reliable : Bool) (config : Text) (t₀ : Table Bool Route) (_ : String)
    (s : Net) : Prop :=
  reliable = true → Sound I config t₀ s

/-- A command that changes nothing that matters. -/
theorem follows_still {c : Cmd} (hc : c.Answer = Except String Unit)
    (h : Coming I config t₀ s)
    (hsame : ∀ x s', effect I reliable s c x = some s' →
      s'.routes = s.routes ∧ s'.link = s.link ∧ s'.endpoint = s.endpoint) :
    Follows (network I reliable) (run c hc) s
      (fun _ s' => Coming I config t₀ s' ∧ s'.routes = s.routes)
      (Failed I reliable config t₀) := by
  refine (follows_run hc).mpr fun x s' hx => ?_
  obtain ⟨hroutes, hlink, hendpoint⟩ := hsame x s' hx
  have hsound := h.1.of_same hroutes (fun hup => hlink.trans hup) hendpoint
  exact ⟨fun _ _ => ⟨⟨hsound, hlink.trans h.2⟩, hroutes⟩, fun _ _ _ => hsound⟩

theorem follows_addAddresses (addresses : List Text) (h : Coming I config t₀ s) :
    Follows (network I reliable) (addAddresses addresses) s (fun _ => Coming I config t₀)
      (Failed I reliable config t₀) := by
  induction addresses generalizing s with
  | nil => exact h
  | cons address addresses ih =>
    rw [addAddresses]
    split
    · exact ih h
    refine follows_bind.mpr ?_
    refine (follows_still rfl h fun x s' hx => ?_).mono (fun _ s' hs' => ih hs'.1) fun _ _ => id
    cases x with
    | ok u =>
      obtain rfl := Option.some.inj hx
      exact ⟨rfl, rfl, rfl⟩
    | error e =>
      obtain rfl := Option.some.inj hx
      exact ⟨rfl, rfl, rfl⟩

theorem follows_linkUp (mtu : ℕ) (h : Coming I config t₀ s) :
    Follows (network I reliable) (run (.linkUp mtu)) s (fun _ => Coming I config t₀)
      (Failed I reliable config t₀) := by
  refine (follows_run rfl).mpr fun x s' hx => ?_
  obtain ⟨hnew, hkeep⟩ := mem_connect (I := I) s.addresses s.routes
  cases x with
  | ok u =>
    have heffect : (if s.link = false then none
      else some { s with routes := s.addresses.foldl (connect I) s.routes }) = some s' := hx
    rw [Option.ite_none_left_eq_some] at heffect
    obtain rfl := Option.some.inj heffect.2
    have hsound := h.1.add h.2 hnew fun x hx _ => hkeep x hx
    exact ⟨fun _ _ => ⟨hsound, h.2⟩, fun _ _ _ => hsound⟩
  | error e =>
    obtain rfl := Option.some.inj hx
    exact ⟨fun _ _ => h, fun _ _ _ => h.1⟩

/-- **The destinations that have been installed lead through the tunnel.** -/
theorem follows_installRoutes (ds : List Text) (h : Coming I config t₀ s)
    (hallowed : ∀ x, Untouched I config x → ∀ d ∈ ds, I.prefixOf d ≠ some x.1) :
    Follows (network I reliable) (installRoutes ds) s
      (fun _ s' => Coming I config t₀ s' ∧
        (∀ p, route s.routes p = some tunnelRoute → route s'.routes p = some tunnelRoute) ∧
        ∀ d ∈ ds, ∀ p, I.prefixOf d = some p → route s'.routes p = some tunnelRoute)
      (Failed I reliable config t₀) := by
  induction ds generalizing s with
  | nil => exact ⟨h, fun _ => id, fun d hd => by cases hd⟩
  | cons d ds ih =>
    rw [installRoutes]
    refine follows_bind.mpr ((follows_run rfl).mpr fun x s₁ hx => ?_)
    cases x with
    | error e =>
      obtain rfl := Option.some.inj hx
      exact ⟨fun u hu => (by cases hu), fun _ _ _ => h.1⟩
    | ok u =>
      refine ⟨fun _ _ => ?_, fun e he => (by cases he)⟩
      have heffect : (if tunnelRoute.device = WG_INTERFACE ∧ s.link = false then none
        else (I.prefixOf d).map fun p => { s with routes := replace s.routes p tunnelRoute }) =
          some s₁ := hx
      rw [Option.ite_none_left_eq_some] at heffect
      obtain ⟨p, hp, rfl⟩ := Option.map_eq_some_iff.mp heffect.2
      have hsound : Sound I config t₀ { s with routes := replace s.routes p tunnelRoute } := by
        refine h.1.add h.2 (fun x hx => ?_) fun x hx huntouched => ?_
        · rcases mem_replace.mp hx with rfl | ⟨hx, -⟩
          · exact .inr rfl
          · exact .inl hx
        · refine mem_replace.mpr (.inr ⟨hx, fun heq => ?_⟩)
          exact hallowed x huntouched d List.mem_cons_self (by rw [hp, heq])
      have hstay : ∀ q, route s.routes q = some tunnelRoute →
          route (replace s.routes p tunnelRoute) q = some tunnelRoute := by
        intro q hq
        by_cases hqp : q = p
        · rw [hqp, route_replace_self]
        · rw [route_replace_ne hqp, hq]
      refine (ih ⟨hsound, h.2⟩ fun x hx d' hd' =>
        hallowed x hx d' (List.mem_cons_of_mem _ hd')).mono ?_ fun _ _ => id
      rintro _ s' ⟨hcoming, hkeep, hinstalled⟩
      refine ⟨hcoming, fun q hq => hkeep q (hstay q hq), fun d' hd' q hq => ?_⟩
      rcases List.mem_cons.mp hd' with rfl | hd'
      · obtain rfl := Option.some.inj (hp.symm.trans hq)
        exact hkeep p route_replace_self
      · exact hinstalled d' hd' q hq

/-- The route to the endpoint is installed and its address stored. -/
theorem follows_addHostRoute {endpointIp : Text} (h : Old I config t₀ s) (hne : endpointIp ≠ [])
    (htrim : trim endpointIp = endpointIp) (default : Option Text × Option Text) :
    Follows (network I reliable) (addHostRoute endpointIp default) s
      (fun _ => Sound I config t₀) (Failed I reliable config t₀) := by
  rcases default with ⟨gateway, _ | device⟩
  · exact fun _ => h.sound
  rw [addHostRoute]
  refine follows_bind.mpr ((follows_run rfl).mpr fun x s₁ hx => ?_)
  cases x with
  | error e =>
    obtain rfl := Option.some.inj hx
    exact ⟨fun u hu => (by cases hu), fun _ _ _ => h.sound⟩
  | ok u =>
    refine ⟨fun _ _ => ?_, fun e he => (by cases he)⟩
    have hreplace : (if device = WG_INTERFACE ∧ s.link = false then none
      else (I.prefixOf (host32 endpointIp)).map fun p =>
        { s with routes := replace s.routes p ⟨gateway, device⟩ }) = some s₁ := hx
    rw [Option.ite_none_left_eq_some] at hreplace
    obtain ⟨p, hp, rfl⟩ := Option.map_eq_some_iff.mp hreplace.2
    refine (follows_run rfl).mpr fun y s₂ hy => ?_
    cases y with
    | error e =>
      refine ⟨fun u hu => (by cases hu), fun _ _ hreliable => ?_⟩
      have hwrite : (if reliable = true then none
        else some { s with routes := replace s.routes p ⟨gateway, device⟩ }) = some s₂ := hy
      rw [if_pos hreliable] at hwrite
      cases hwrite
    | ok u =>
      obtain rfl := Option.some.inj hy
      refine ⟨fun _ _ => ⟨fun x hx => ?_, fun x hx huntouched => ?_⟩, fun e he => (by cases he)⟩
      · rcases mem_replace.mp hx with rfl | ⟨hx, -⟩
        · exact .inr (.inr ⟨endpointIp, rfl, by rwa [htrim], by rwa [htrim]⟩)
        · exact .inl (h.1 x hx)
      · refine mem_replace.mpr (.inr ⟨h.2 x hx huntouched, fun heq => ?_⟩)
        exact huntouched.host endpointIp (by rw [hp, heq])

theorem follows_getDefaultRoute (h : Old I config t₀ s) :
    Follows (network I reliable) getDefaultRoute s (fun _ => Old I config t₀)
      (Failed I reliable config t₀) := by
  refine follows_bind.mpr ⟨trivial, fun answer s' hs' => ?_⟩
  obtain rfl := Option.some.inj hs'
  refine follows_bind.mpr (follows_ofExcept.mpr ⟨fun output _ => h, fun e _ _ => h.sound⟩)

theorem follows_addEndpointBypassRoute (endpointHost : Option Text) (h : Old I config t₀ s) :
    Follows (network I reliable) (addEndpointBypassRoute endpointHost) s
      (fun _ => Sound I config t₀) (Failed I reliable config t₀) := by
  rcases endpointHost with _ | host
  · exact h.sound
  rw [addEndpointBypassRoute]
  refine follows_ite.mpr ⟨fun _ => h.sound, fun _ => ?_⟩
  refine follows_bind.mpr ((follows_resolve host).mono ?_ fun _ _ => id)
  rintro ip? s' ⟨rfl, hip⟩
  rcases ip? with _ | ip
  · exact fun _ => h.sound
  · obtain ⟨hne, htrim⟩ := hip ip rfl
    refine follows_bind.mpr ((follows_getDefaultRoute h).mono ?_ fun _ _ => id)
    exact fun default s₁ hold => follows_addHostRoute hold hne htrim default

/-- **What bringing the tunnel up does to the table.** -/
theorem follows_bringUp (h : Old I config t₀ s) :
    Follows (network I reliable) (bringUp config) s
      (fun _ s' => Sound I config t₀ s' ∧ ∃ runtime, buildRuntimeConfig config = .ok runtime ∧
        ∀ d ∈ runtime.allowedIps.flatMap destinations, ∀ p, I.prefixOf d = some p →
          route s'.routes p = some tunnelRoute)
      (Failed I reliable config t₀) := by
  have hwrite : ∀ {s : Net}, Old I config t₀ s → Follows (network I reliable) (run .writeFiles) s
      (fun _ => Old I config t₀) (Failed I reliable config t₀) := by
    intro s hs
    refine (follows_run rfl).mpr fun x s' hx => ?_
    have hsame : s' = s := by cases x <;> exact (Option.some.inj hx).symm
    rw [hsame]
    exact ⟨fun _ _ => hs, fun _ _ _ => hs.sound⟩
  rw [bringUp]
  refine follows_bind.mpr ((hwrite h).mono (fun _ s₁ h₁ => ?_) fun _ _ => id)
  refine follows_bind.mpr ((follows_cleanup_old h₁).mono (fun _ s₂ h₂ => ?_) fun _ _ => id)
  refine follows_bind.mpr (follows_ofExcept.mpr ⟨fun runtime hruntime => ?_, fun _ _ _ => h₂.sound⟩)
  refine follows_bind.mpr ((hwrite h₂).mono (fun _ s₃ h₃ => ?_) fun _ _ => id)
  refine follows_bind.mpr ((follows_addEndpointBypassRoute _ h₃).mono (fun _ s₄ h₄ => ?_)
    fun _ _ => id)
  have hadd : Follows (network I reliable) (run .linkAdd) s₄ (fun _ => Coming I config t₀)
      (Failed I reliable config t₀) := by
    refine (follows_run rfl).mpr fun x s' hx => ?_
    cases x with
    | ok u =>
      have heffect : (if s₄.link then none else some { s₄ with link := true, addresses := [] }) =
          some s' := hx
      rw [Option.ite_none_left_eq_some] at heffect
      obtain rfl := Option.some.inj heffect.2
      have hsound : Sound I config t₀ { s₄ with link := true, addresses := [] } :=
        h₄.of_same rfl (fun _ => rfl) rfl
      exact ⟨fun _ _ => ⟨hsound, rfl⟩, fun _ _ _ => hsound⟩
    | error e =>
      obtain rfl := Option.some.inj hx
      exact ⟨fun u hu => (by cases hu), fun _ _ _ => h₄⟩
  have hstill : ∀ {c : Cmd} (hc : c.Answer = Except String Unit) {s : Net},
      (∀ x s', effect I reliable s c x = some s' → s' = s) → Coming I config t₀ s →
      Follows (network I reliable) (run c hc) s
        (fun _ s' => Coming I config t₀ s' ∧ s'.routes = s.routes)
        (Failed I reliable config t₀) := by
    intro c hc s hsame hs
    refine follows_still hc hs fun x s' hx => ?_
    rw [hsame x s' hx]
    exact ⟨rfl, rfl, rfl⟩
  refine follows_bind.mpr (hadd.mono (fun _ s₅ h₅ => ?_) fun _ _ => id)
  refine follows_bind.mpr ((hstill rfl (fun x s' hx => ?_) h₅).mono (fun _ s₆ h₆ => ?_)
    fun _ _ => id)
  · cases x <;> exact (Option.some.inj hx).symm
  refine follows_bind.mpr ((follows_addAddresses _ h₆.1).mono (fun _ s₇ h₇ => ?_) fun _ _ => id)
  refine follows_bind.mpr ((follows_linkUp _ h₇).mono (fun _ s₈ h₈ => ?_) fun _ _ => id)
  have hallowed : ∀ x, Untouched I config x →
      ∀ d ∈ runtime.allowedIps.flatMap destinations, I.prefixOf d ≠ some x.1 :=
    fun x hx => hx.allowed runtime hruntime
  refine follows_bind.mpr ((follows_installRoutes _ h₈ hallowed).mono (fun _ s₉ h₉ => ?_)
    fun _ _ => id)
  obtain ⟨h₉, -, hinstalled⟩ := h₉
  refine follows_bind.mpr ((hstill rfl (fun x s' hx => ?_) h₉).mono (fun _ s₁₀ h₁₀ => ?_)
    fun _ _ => id)
  · cases x <;> exact (Option.some.inj hx).symm
  refine (hstill rfl (fun x s' hx => ?_) h₁₀.1).mono (fun _ s₁₁ h₁₁ => ?_) fun _ _ => id
  · cases x <;> exact (Option.some.inj hx).symm
  · refine ⟨h₁₁.1.1, runtime, hruntime, fun d hd p hp => ?_⟩
    rw [h₁₁.2, h₁₀.2]
    exact hinstalled d hd p hp

end Up

/-! ## Where packets go -/

section Results

variable {s' : Net}

/-- What `startConnection` does to the table, whether it succeeds or not. -/
theorem follows_startConnection (s : Net) :
    Follows (network I reliable) (startConnection config) s
      (fun error s' =>
        (error = none → Sound I config s.routes s' ∧
          ∃ runtime, buildRuntimeConfig config = .ok runtime ∧
            ∀ d ∈ runtime.allowedIps.flatMap destinations, ∀ p, I.prefixOf d = some p →
              route s'.routes p = some tunnelRoute) ∧
        (error ≠ none → reliable = true → Old I config s.routes s'))
      (fun _ _ => False) := by
  have hold : Old I config s.routes s := ⟨fun _ => id, fun _ hx _ => hx⟩
  refine follows_bind.mpr (follows_attempt.mpr ((follows_bringUp hold).mono ?_ ?_))
  · exact fun _ s₁ h₁ => ⟨fun _ => h₁, fun hne => absurd rfl hne⟩
  · intro message s₁ hfailed
    refine follows_bind.mpr ?_
    by_cases hreliable : reliable = true
    · refine (follows_cleanup_sound hreliable (hfailed hreliable)).mono (fun _ s₂ h₂ => ?_)
        fun _ _ => id
      exact ⟨fun hnone => (by cases hnone), fun _ _ => h₂⟩
    · have hold₁ : Old I config s₁.routes s₁ := ⟨fun _ => id, fun _ hx _ => hx⟩
      refine (follows_cleanup_old hold₁).mono (fun _ s₂ _ => ?_) fun _ _ => id
      exact ⟨fun hnone => (by cases hnone), fun _ h => absurd h hreliable⟩

/-- **No packet takes the default route.** While a tunnel for all traffic is up, the longest prefix
of an address that has a route is not the empty one, and this route leads through the tunnel, or was
there before, or is the one to the endpoint. The routes that no command names stay, the default one
among them. -/
theorem no_packet_takes_default_route (hreads : I.Reads)
    (hfull : ∃ runtime, buildRuntimeConfig config = .ok runtime ∧
      "0.0.0.0/0".toList ∈ runtime.allowedIps)
    (hruns : Runs (effect I reliable) (startConnection config) s (.ok none) s') {a : Address}
    (ha : a ≠ []) :
    (∃ p r, p ≠ [] ∧ p <+: a ∧ route s'.routes p = some r ∧
      (∀ q, q <+: a → p.length < q.length → route s'.routes q = none) ∧
      lookup s'.routes a = some r ∧ (r.device = WG_INTERFACE ∨ (p, r) ∈ s.routes ∨
        ∃ ip, s'.endpoint = some ip ∧ I.prefixOf (host32 (trim ip)) = some p)) ∧
    ∀ x ∈ s.routes, Untouched I config x → x ∈ s'.routes := by
  obtain ⟨hsound, runtime, hruntime, hinstalled⟩ :=
    ((follows_startConnection s).of_runs hruns).1 none rfl |>.1 rfl
  obtain ⟨runtime', hruntime', hall⟩ := hfull
  obtain rfl := Except.ok.inj (hruntime'.symm.trans hruntime)
  obtain ⟨b, rest, rfl⟩ := List.exists_cons_of_ne_nil ha
  have hhalf : route s'.routes [b] = some tunnelRoute := by
    have hmem : ∀ d ∈ ["0.0.0.0/1".toList, "128.0.0.0/1".toList],
        d ∈ runtime'.allowedIps.flatMap destinations :=
      fun d hd => List.mem_flatMap.mpr ⟨_, hall, hd⟩
    cases b with
    | false => exact hinstalled _ (hmem _ List.mem_cons_self) _ hreads.low
    | true => exact hinstalled _ (hmem _ (List.mem_cons_of_mem _ List.mem_cons_self)) _ hreads.high
  have hbegins : [b] <+: b :: rest := ⟨rest, rfl⟩
  obtain ⟨p, r, hlookup, hp, hlength, hroute, hlongest⟩ :=
    exists_of_lookup hbegins (by rw [hhalf]; rfl)
  have hne : p ≠ [] := by
    rintro rfl
    exact Nat.not_succ_le_zero 0 hlength
  refine ⟨⟨p, r, hne, hp, hroute, hlongest, hlookup, ?_⟩, hsound.2⟩
  rcases hsound.1 (p, r) (mem_of_route hroute) with hold | ⟨hdevice, -⟩ | ⟨ip, hip, -, hto⟩
  · exact .inr (.inl hold)
  · exact .inl hdevice
  · exact .inr (.inr ⟨ip, hip, hto⟩)

/-- A tunnel is brought up, and taken down if it came up. -/
def upAndDown (config : Text) : Op Unit := do
  match ← startConnection config with
  | none => stopConnection
  | some _ => return ()

/-- **The routes are given back.** A tunnel that does not come up, at whichever command, and a
tunnel that is taken down again leave no route behind, and take away none but those to the
destinations of the profile and to single addresses. -/
theorem routes_are_given_back {r : Except String Unit}
    (hruns : Runs (effect I true) (upAndDown config) s r s') :
    (∀ x ∈ s'.routes, x ∈ s.routes) ∧
      ∀ x ∈ s.routes, Untouched I config x → x ∈ s'.routes := by
  have hfollows : Follows (network I true) (upAndDown config) s
      (fun _ => Old I config s.routes) (fun _ _ => False) := by
    refine follows_bind.mpr ((follows_startConnection s).mono ?_ fun _ _ => id)
    rintro (_ | message) s₁ ⟨hup, hdown⟩
    · exact follows_cleanup_sound rfl (hup rfl).1
    · exact hdown (fun hnone => by cases hnone) rfl
  cases r with
  | ok u => exact (hfollows.of_runs hruns).1 u rfl
  | error e => exact ((hfollows.of_runs hruns).2 e rfl).elim

/-! ### A profile for all traffic -/

/-- The bits of an address of four octets, as many as this. -/
def bits (octets : List ℕ) (n : ℕ) : Address :=
  (octets.flatMap fun octet => (List.range 8).map fun i => octet.testBit (7 - i)).take n

/-- The destinations of the example, as iproute2 reads them. -/
def sampleIproute : Iproute where
  prefixOf destination :=
    if destination = "0.0.0.0/1".toList then some (bits [0, 0, 0, 0] 1)
    else if destination = "128.0.0.0/1".toList then some (bits [128, 0, 0, 0] 1)
    else if destination = "203.0.113.5/32".toList then some (bits [203, 0, 113, 5] 32)
    else none
  connected address :=
    if address = "10.64.0.2/24".toList then some (bits [10, 64, 0, 2] 24) else none

/-- A profile. -/
def sampleConfig : Text :=
  ("[Interface]\nPrivateKey = k\nAddress = 10.64.0.2/24\nPostUp = sh\n[Peer]\n" ++
    "AllowedIPs = 0.0.0.0/0, ::/0\nEndpoint = 203.0.113.5:51820\n").toList

/-- What is made of it. -/
def sampleRuntime : RuntimeWireguardConfig where
  setconf := ["[Interface]".toList, "PrivateKey = k".toList, "[Peer]".toList,
    "AllowedIPs = 0.0.0.0/0, ::/0".toList, "Endpoint = 203.0.113.5:51820".toList, []]
  addresses := ["10.64.0.2/24".toList]
  mtu := 1420
  endpointHost := some "203.0.113.5".toList
  allowedIps := ["0.0.0.0/0".toList, "::/0".toList]

example : buildRuntimeConfig sampleConfig = .ok sampleRuntime := by decide +kernel

/-- The network of a container. -/
def sampleNet : Net where
  link := false
  addresses := []
  routes := [(bits [0, 0, 0, 0] 0, ⟨some "172.17.0.1".toList, "eth0".toList⟩),
    (bits [172, 17, 0, 0] 16, ⟨none, "eth0".toList⟩)]
  endpoint := none

/-- The answers where every command works. -/
def working (s : Net) : (c : Cmd) → c.Answer
  | .linkDelete => if s.link then .ok () else .error "Cannot find device \"wg0\""
  | .readEndpoint => .ok s.endpoint
  | .unlink => true
  | .getent _ => .error "not found"
  | .showDefault => .ok "default via 172.17.0.1 dev eth0".toList
  | .writeFiles => .ok ()
  | .routeDelete _ => .ok ()
  | .routeReplace _ _ => .ok ()
  | .writeEndpoint _ => .ok ()
  | .linkAdd => .ok ()
  | .setconf _ => .ok ()
  | .addressAdd _ => .ok ()
  | .linkUp _ => .ok ()
  | .linkShow => .ok ()
  | .log => .ok ()

/-- The tunnel of the profile comes up, and no packet takes the default route of the container. -/
theorem sample_tunnel_is_full : ∃ s',
    Runs (effect sampleIproute true) (startConnection sampleConfig) sampleNet (.ok none) s' ∧
      ∀ a : Address, a ≠ [] → (∃ p r, p ≠ [] ∧ p <+: a ∧ route s'.routes p = some r ∧
        (∀ q, q <+: a → p.length < q.length → route s'.routes q = none) ∧
        lookup s'.routes a = some r ∧ (r.device = WG_INTERFACE ∨ (p, r) ∈ sampleNet.routes ∨
          ∃ ip, s'.endpoint = some ip ∧ sampleIproute.prefixOf (host32 (trim ip)) = some p)) ∧
      ∀ x ∈ sampleNet.routes, Untouched sampleIproute sampleConfig x → x ∈ s'.routes := by
  obtain ⟨s', hs'⟩ : ∃ s', (startConnection sampleConfig).runWith (effect sampleIproute true)
      working sampleNet = some (.ok none, s') := by
    refine ⟨⟨true, ["10.64.0.2/24".toList],
      [([true], tunnelRoute), ([false], tunnelRoute),
        (bits [203, 0, 113, 5] 32, ⟨some "172.17.0.1".toList, "eth0".toList⟩),
        (bits [0, 0, 0, 0] 0, ⟨some "172.17.0.1".toList, "eth0".toList⟩),
        (bits [172, 17, 0, 0] 16, ⟨none, "eth0".toList⟩),
        (bits [10, 64, 0, 2] 24, tunnelRoute)], some "203.0.113.5".toList⟩, ?_⟩
    decide +kernel
  have hruns := Runs.of_runWith hs'
  refine ⟨s', hruns, fun a ha => ?_⟩
  exact no_packet_takes_default_route ⟨by decide, by decide⟩
    ⟨sampleRuntime, by decide +kernel, by decide⟩ hruns ha

/-- The tunnel is taken down, and the table is the one of the container. -/
theorem sample_routes_given_back : ∃ s',
    Runs (effect sampleIproute true) (upAndDown sampleConfig) sampleNet (.ok ()) s' ∧
      (∀ x ∈ s'.routes, x ∈ sampleNet.routes) ∧
      ∀ x ∈ sampleNet.routes, Untouched sampleIproute sampleConfig x → x ∈ s'.routes := by
  obtain ⟨s', hs'⟩ : ∃ s', (upAndDown sampleConfig).runWith (effect sampleIproute true)
      working sampleNet = some (.ok (), s') := by
    refine ⟨sampleNet, ?_⟩
    decide +kernel
  exact ⟨s', Runs.of_runWith hs', routes_are_given_back (Runs.of_runWith hs')⟩

end Results

end IptvProxy.Vpn.Wireguard
