import Mathlib.Algebra.Order.Floor.Ring
import Mathlib.Data.List.Sort
import Mathlib.Data.Rat.Floor
import IptvProxy.Routing.Agreement
import IptvProxy.Users.Update

/-!
# Updates of a provider

`ProviderService.updateProvider` of `lib/services/provider.service.ts` with what it calls of
`lib/services/provider-user.service.ts`: `upsertPrimaryUser`, `updateUser`, `createUser` and
`syncLegacyIdentity`. Every statement of the database succeeds.

The provider is written before the client's name and password are looked at. So an update that is
rejected because of them has changed the provider (`rejected_update_changes_provider`). Exactly
where the client is accepted, or what is written is what is stored, a rejected update changes
nothing (`rejected_update_changes_nothing_iff`).

`parseUrl` stands for the class `URL`, with `none` where it throws. A number is a rational one. The
column `created_at` of `iptv_providers` is never written and left out.
-/

namespace IptvProxy.Users.ProviderUpdate

open GoText Js Routing

/-- A row of `iptv_providers`. -/
structure Provider where
  /-- `id` -/
  id : Text
  /-- `name` -/
  name : Text
  /-- `host` -/
  host : Text
  /-- `route` -/
  route : Text
  /-- `upstream_username` -/
  upstreamUsername : Text
  /-- `upstream_password` -/
  upstreamPassword : Text
  /-- `local_username` -/
  localUsername : Text
  /-- `local_password` -/
  localPassword : Text
  /-- `is_default` -/
  isDefault : ℤ
  /-- `cache_duration_hours` -/
  cacheDurationHours : ℤ
  /-- `enabled` -/
  enabled : ℤ
  /-- `updated_at` -/
  updatedAt : Text
  deriving DecidableEq

/-- A row of `provider_users`. -/
structure User where
  /-- `id` -/
  id : Text
  /-- `provider_id` -/
  providerId : Text
  /-- `username` -/
  username : Text
  /-- `password` -/
  password : Text
  /-- `password_hash` -/
  passwordHash : Text
  /-- `enabled` -/
  enabled : ℕ
  /-- `created_at` -/
  createdAt : Text
  /-- `updated_at` -/
  updatedAt : Text
  deriving DecidableEq

/-- The two tables. -/
structure Db where
  /-- `iptv_providers` -/
  providers : List Provider
  /-- `provider_users` -/
  users : List User
  deriving DecidableEq

/-- `UpdateProviderInput` -/
structure UpdateProviderInput where
  /-- `name` -/
  name : Option Text
  /-- `host` -/
  host : Option Text
  /-- `route` -/
  route : Option Text
  /-- `upstream_username` -/
  upstreamUsername : Option Text
  /-- `upstream_password` -/
  upstreamPassword : Option Text
  /-- `local_username` -/
  localUsername : Option Text
  /-- `local_password` -/
  localPassword : Option Text
  /-- `is_default` -/
  isDefault : Option Bool
  /-- `cache_duration_hours` -/
  cacheDurationHours : Option ℚ
  /-- `enabled` -/
  enabled : Option Bool
  deriving DecidableEq

/-- `MASK` -/
def mask : Text := "••••••••".toList

/-- `RESERVED_ROUTES` -/
def reservedRoutes : List Text :=
  ["ui", "api", "admin", "login", "vpn", "logs", "dashboard", "settings", "system", "health",
    "_next", "_hls", "public", "favicon.ico", "player_api.php", "get.php", "xmltv.php",
    "live", "movie", "series", "timeshift", "streaming"].map String.toList

/-- What `normalizeHost` reads of a `URL`. -/
structure Url where
  /-- `protocol` -/
  protocol : Text
  /-- `username` -/
  username : Text
  /-- `password` -/
  password : Text
  /-- `search` -/
  search : Text
  /-- `hash` -/
  hash : Text
  deriving DecidableEq

/-- Why an update fails. -/
inductive Failure where
  /-- there is no such provider -/
  | notFound
  /-- the name is empty -/
  | nameEmpty
  /-- the route is empty -/
  | routeEmpty
  /-- the route is reserved -/
  | routeReserved (route : Text)
  /-- another provider has the route -/
  | routeTaken (route : Text)
  /-- the host is no URL -/
  | hostInvalid
  /-- its scheme is another one -/
  | hostScheme
  /-- it has a user -/
  | hostCredentials
  /-- it has a query or a fragment -/
  | hostParameters
  /-- there is no user yet and no password -/
  | firstPassword
  /-- there is no user yet and no name -/
  | usernameRequired
  /-- `updateUser` finds no user -/
  | userNotFound
  /-- `updateUser` or `createUser` refuses -/
  | user (failure : Update.Failure)
  /-- the provider is not there afterwards -/
  | notReloaded
  deriving DecidableEq

/-- The texts of the errors. -/
def Failure.text : Failure → String
  | notFound => "Provider not found."
  | nameEmpty => "Provider name cannot be empty."
  | routeEmpty => "Provider route cannot be empty."
  | routeReserved route => s!"Route \"{String.ofList route}\" is reserved."
  | routeTaken route => s!"Route \"{String.ofList route}\" is already in use."
  | hostInvalid => "Provider host must be a valid absolute HTTP or HTTPS URL."
  | hostScheme => "Provider host must use http:// or https://."
  | hostCredentials => "Do not embed credentials in the provider host URL."
  | hostParameters => "Provider host must not contain query parameters or fragments."
  | firstPassword => "A password is required for the first provider user."
  | usernameRequired => "Username is required."
  | userNotFound => "Provider user not found."
  | user failure => failure.text
  | notReloaded => "Provider was updated but could not be reloaded."

/-- The input is at fault, or the verifier that is stored. -/
def Failure.ofInput : Failure → Bool
  | notFound => false
  | userNotFound => false
  | notReloaded => false
  | _ => true

/-- The times at which rows are written, and what is drawn. -/
structure Draw where
  /-- `now` of `updateProvider` -/
  now : Text
  /-- the time of the statement for the user -/
  userTime : Text
  /-- the time of `syncLegacyIdentity` -/
  syncTime : Text
  /-- `crypto.randomUUID` -/
  userId : Text
  /-- `crypto.randomBytes` -/
  salt : Update.Salt

/-! ## The users -/

/-- `ORDER BY enabled DESC, created_at ASC, username ASC` -/
def User.before (a b : User) : Bool :=
  b.enabled < a.enabled || (a.enabled = b.enabled &&
    (a.createdAt < b.createdAt || (a.createdAt = b.createdAt && a.username < b.username)))

/-- `ORDER BY enabled DESC, created_at ASC, id ASC` -/
def User.beforeById (a b : User) : Bool :=
  b.enabled < a.enabled || (a.enabled = b.enabled &&
    (a.createdAt < b.createdAt || (a.createdAt = b.createdAt && a.id < b.id)))

/-- The first of some users in an order. -/
def firstBy (before : User → User → Bool) : List User → Option User
  | [] => none
  | u :: us => match firstBy before us with
    | none => some u
    | some v => if before v u then some v else some u

/-- The users of a provider. -/
def usersOf (s : Db) (providerId : Text) : List User :=
  s.users.filter fun u => u.providerId = providerId

/-- `getUser` -/
def getUser (s : Db) (providerId userId : Text) : Option User :=
  s.users.find? fun u => u.providerId = providerId && u.id = userId

/-- `syncLegacyIdentity` -/
def syncLegacyIdentity (s : Db) (providerId time : Text) : Db :=
  let username := ((firstBy User.beforeById (usersOf s providerId)).map User.username).getD []
  { s with providers := s.providers.map fun p =>
      if p.id = providerId then
        { p with localUsername := username, localPassword := [], updatedAt := time }
      else p }

/-- Another user of the provider has the name. -/
def taken (s : Db) (providerId username : Text) (userId : Option Text) : Bool :=
  s.users.any fun u => u.providerId = providerId && u.username = username && some u.id ≠ userId

variable (U : Unicode) (parseUrl : Text → Option Url) (pbkdf2 : Text → Bytes → ℕ → ℕ → Bytes)

/-- `updateUser` with a username and perhaps a password -/
def updateUser (s : Db) (providerId userId username : Text) (password : Option Text) (draw : Draw) :
    Except Failure Db :=
  match getUser s providerId userId with
  | none => .error .userNotFound
  | some existing =>
    match Update.merge pbkdf2 ⟨existing.username, existing.passwordHash, existing.enabled⟩
        ⟨some username, password, none⟩ draw.salt with
    | .error e => .error (.user e)
    | .ok row =>
      if taken s providerId row.username (some userId) then .error (.user (.duplicate row.username))
      else .ok <| syncLegacyIdentity { s with users := s.users.map fun u =>
          if u.providerId = providerId ∧ u.id = userId then
            { u with
              username := row.username
              password := []
              passwordHash := row.passwordHash
              enabled := row.enabled
              updatedAt := draw.userTime }
          else u } providerId draw.syncTime

/-- `createUser` of an enabled user -/
def createUser (s : Db) (providerId username password : Text) (draw : Draw) : Except Failure Db :=
  let username := trim username
  if username = [] then .error .usernameRequired
  else if 512 < Js.length username then .error (.user .usernameLong)
  else if 4096 < Js.length password then .error (.user .passwordLong)
  else if taken s providerId username none then .error (.user (.duplicate username))
  else .ok <| syncLegacyIdentity { s with users := s.users ++
      [⟨draw.userId, providerId, username, [], hashProviderPassword pbkdf2 password draw.salt.1, 1,
        draw.userTime, draw.userTime⟩] } providerId draw.syncTime

/-- `upsertPrimaryUser` -/
def upsertPrimaryUser (s : Db) (providerId username : Text) (password : Option Text) (draw : Draw) :
    Except Failure Db :=
  match firstBy User.before (usersOf s providerId) with
  | some primary => updateUser pbkdf2 s providerId primary.id username password draw
  | none =>
    if password.getD [] = [] then .error .firstPassword
    else createUser pbkdf2 s providerId username (password.getD []) draw

/-! ## The provider -/

/-- `normalizeHost` -/
def normalizeHost (host : Text) : Except Failure Text :=
  let candidate := trim host
  match parseUrl candidate with
  | none => .error .hostInvalid
  | some parsed =>
    if parsed.protocol ≠ "http:".toList ∧ parsed.protocol ≠ "https:".toList then .error .hostScheme
    else if parsed.username ≠ [] ∨ parsed.password ≠ [] then .error .hostCredentials
    else if parsed.search ≠ [] ∨ parsed.hash ≠ [] then .error .hostParameters
    else .ok (candidate.reverse.dropWhile (· = '/')).reverse

/-- `isRouteReserved` -/
def isRouteReserved (route : Text) : Bool := reservedRoutes.contains (normalizeRoute U route)

/-- The route that an update asks for. -/
def newRoute (s : Db) (existing : Provider) (input : UpdateProviderInput) : Except Failure Text :=
  match input.route with
  | none => .ok existing.route
  | some route =>
    let route := normalizeRoute U route
    if route = [] then .error .routeEmpty
    else if isRouteReserved U route then .error (.routeReserved route)
    else if s.providers.any fun p => p.route = route && p.id ≠ existing.id then
      .error (.routeTaken route)
    else .ok route

/-- `Math.trunc` -/
def trunc (q : ℚ) : ℤ := if 0 ≤ q then ⌊q⌋ else ⌈q⌉

/-- What `updateProvider` does before it writes: the row that it has read and the one that it is
going to write. -/
def plan (s : Db) (id : Text) (input : UpdateProviderInput) (draw : Draw) :
    Except Failure (Provider × Provider) :=
  match s.providers.find? fun p => p.id = id with
  | none => .error .notFound
  | some existing =>
    let name := (input.name.map trim).getD existing.name
    if name = [] then .error .nameEmpty
    else do
      let route ← newRoute U s existing input
      let host ← match input.host with
        | none => .ok existing.host
        | some host => normalizeHost parseUrl host
      return (existing, { existing with
        name := name
        host := host
        route := route
        upstreamUsername := (input.upstreamUsername.map trim).getD existing.upstreamUsername
        upstreamPassword :=
          (input.upstreamPassword.filter (· ≠ mask)).getD existing.upstreamPassword
        isDefault := (input.isDefault.map fun b => if b then 1 else 0).getD existing.isDefault
        cacheDurationHours := (input.cacheDurationHours.map fun h => max 0 (min 24 (trunc h))).getD
          existing.cacheDurationHours
        enabled := (input.enabled.map fun b => if b then 1 else 0).getD existing.enabled
        localPassword := []
        updatedAt := draw.now })

/-- The batch, as far as a row is concerned: the other default is cleared, if there is to be a new
one, and the row is written. -/
def batchRow (input : UpdateProviderInput) (merged p : Provider) : Provider :=
  let p := if input.isDefault = some true ∧ p.isDefault = 1 ∧ p.id ≠ merged.id then
      { p with isDefault := 0, updatedAt := merged.updatedAt }
    else p
  if p.id = merged.id then { merged with localUsername := p.localUsername } else p

/-- `db.batch(statements)` -/
def batch (s : Db) (input : UpdateProviderInput) (merged : Provider) : Db :=
  { s with providers := s.providers.map (batchRow input merged) }

/-- The password that is asked for. -/
def UpdateProviderInput.password (input : UpdateProviderInput) : Option Text :=
  input.localPassword.filter (· ≠ mask)

/-- The client's name or password is to be changed. -/
def UpdateProviderInput.touchesClient (input : UpdateProviderInput) : Bool :=
  input.localUsername.isSome || input.password.isSome

/-- The name that is asked for: `input.local_username?.trim() || existing.local_username` -/
def UpdateProviderInput.clientName (input : UpdateProviderInput) (existing : Provider) : Text :=
  if (input.localUsername.map trim).getD [] = [] then existing.localUsername
  else (input.localUsername.map trim).getD []

/-- What `getProviderById` returns to the outside. -/
structure PublicProvider where
  /-- the row -/
  provider : Provider
  /-- the users -/
  users : List User
  deriving DecidableEq

/-- `getProviderById(id, false)`, up to the order of the users -/
def getProviderById (s : Db) (id : Text) : Option PublicProvider :=
  (s.providers.find? fun p => p.id = id).map fun p =>
    ⟨{ p with upstreamPassword := mask, localPassword := mask },
      (usersOf s id).map fun u => { u with passwordHash := mask }⟩

/-- `updateProvider`, with the tables afterwards -/
def updateProvider (s : Db) (id : Text) (input : UpdateProviderInput) (draw : Draw) :
    Except Failure PublicProvider × Db :=
  match plan U parseUrl s id input draw with
  | .error e => (.error e, s)
  | .ok (existing, merged) =>
    let written := batch s input merged
    let stored := if input.touchesClient then
        upsertPrimaryUser pbkdf2 written id (input.clientName existing) input.password draw
      else .ok written
    match stored with
    | .error e => (.error e, written)
    | .ok s => match getProviderById s id with
      | none => (.error .notReloaded, s)
      | some p => (.ok p, s)

/-! ## What a rejected update changes -/

/-- What a name and a password must be. -/
def CredentialsOk (username : Text) (password : Option Text) : Prop :=
  trim username ≠ [] ∧ Js.length (trim username) ≤ 512 ∧ Js.length (password.getD []) ≤ 4096

/-- The client is accepted: for the first user there is a password, and for one that is there the
verifier is one; the name is not empty, not too long and not taken, the password not too long. -/
def ClientOk (s : Db) (providerId username : Text) (password : Option Text) : Prop :=
  match firstBy User.before (usersOf s providerId) with
  | some primary => ∀ existing, getUser s providerId primary.id = some existing →
    isProviderPasswordHash existing.passwordHash = true ∧ CredentialsOk username password ∧
      taken s providerId (trim username) (some primary.id) = false
  | none => password.getD [] ≠ [] ∧ CredentialsOk username password ∧
    taken s providerId (trim username) none = false

variable {U parseUrl pbkdf2} {s : Db} {providerId userId username id : Text}
  {password : Option Text} {draw : Draw} {input : UpdateProviderInput}

/-- What `updateUser` accepts of a name and a password. -/
theorem merge_cases (username : Text) (password : Option Text) (draw : Draw) (row : Update.Row) :
    (isProviderPasswordHash row.passwordHash = true ∧ CredentialsOk username password ∧
      ∃ merged, Update.merge pbkdf2 row ⟨some username, password, none⟩ draw.salt = .ok merged ∧
        merged.username = trim username) ∨
    (¬(isProviderPasswordHash row.passwordHash = true ∧ CredentialsOk username password) ∧
      ∃ e, Update.merge pbkdf2 row ⟨some username, password, none⟩ draw.salt = .error e) := by
  rw [Update.merge]
  simp only [Option.map_some, Option.getD_some]
  split
  · next h => exact .inr ⟨fun hboth => Bool.false_ne_true (h.symm.trans hboth.1), _, rfl⟩
  · split
    · next h => exact .inr ⟨fun hboth => hboth.2.1 h, _, rfl⟩
    · split
      · next h => exact .inr ⟨fun hboth => Nat.not_lt.mpr hboth.2.2.1 h, _, rfl⟩
      · split
        · next h => exact .inr ⟨fun hboth => Nat.not_lt.mpr hboth.2.2.2 h, _, rfl⟩
        · next hhash hempty hlong hpassword =>
          exact .inl ⟨Bool.not_eq_false _ ▸ hhash,
            ⟨hempty, Nat.not_lt.mp hlong, Nat.not_lt.mp hpassword⟩, _, rfl, rfl⟩

/-- `updateUser` refuses an input exactly where the verifier, the name or the password is not
accepted. -/
theorem updateUser_refuses_iff (s : Db) (providerId userId username : Text)
    (password : Option Text) (draw : Draw) :
    (∃ e, updateUser pbkdf2 s providerId userId username password draw = .error e ∧
      e.ofInput = true) ↔ ¬∀ existing, getUser s providerId userId = some existing →
        isProviderPasswordHash existing.passwordHash = true ∧ CredentialsOk username password ∧
          taken s providerId (trim username) (some userId) = false := by
  rw [updateUser]
  cases hexisting : getUser s providerId userId with
  | none =>
    refine iff_of_false ?_ (not_not.mpr (by rintro _ ⟨⟩))
    rintro ⟨e, he, hof⟩
    obtain rfl := Except.error.inj he
    cases hof
  | some existing =>
    dsimp only
    rcases @merge_cases pbkdf2 username password draw
      ⟨existing.username, existing.passwordHash, existing.enabled⟩ with
      ⟨hhash, hcredentials, merged, hmerged, hname⟩ | ⟨hno, e, he⟩
    · rw [hmerged, ← hname]
      dsimp only
      by_cases htaken : taken s providerId merged.username (some userId) = true
      · rw [if_pos htaken]
        refine iff_of_true ⟨_, rfl, rfl⟩ fun h => ?_
        have hfree := (h existing rfl).2.2
        rw [htaken] at hfree
        cases hfree
      · rw [if_neg htaken]
        refine iff_of_false (by rintro ⟨e, he, -⟩; cases he) (not_not.mpr ?_)
        rintro _ ⟨⟩
        exact ⟨hhash, hcredentials, eq_false_of_ne_true htaken⟩
    · rw [he]
      refine iff_of_true ⟨_, rfl, rfl⟩ fun h => ?_
      obtain ⟨hhash, hcredentials, -⟩ := h existing rfl
      exact hno ⟨hhash, hcredentials⟩

/-- `createUser` refuses an input exactly where the name or the password is not accepted. -/
theorem createUser_refuses_iff (s : Db) (providerId username password : Text) (draw : Draw) :
    (∃ e, createUser pbkdf2 s providerId username password draw = .error e ∧ e.ofInput = true) ↔
      ¬(CredentialsOk username (some password) ∧
        taken s providerId (trim username) none = false) := by
  rw [createUser]
  split
  · next h => exact iff_of_true ⟨_, rfl, rfl⟩ fun hok => hok.1.1 h
  · split
    · next h => exact iff_of_true ⟨_, rfl, rfl⟩ fun hok => Nat.not_lt.mpr hok.1.2.1 h
    · split
      · next h => exact iff_of_true ⟨_, rfl, rfl⟩ fun hok => Nat.not_lt.mpr hok.1.2.2 h
      · split
        · next h =>
          refine iff_of_true ⟨_, rfl, rfl⟩ fun hok => ?_
          have hfree := hok.2
          rw [h] at hfree
          cases hfree
        · next hempty hlong hpassword htaken =>
          refine iff_of_false (by rintro ⟨e, he, -⟩; cases he) (not_not.mpr ?_)
          exact ⟨⟨hempty, Nat.not_lt.mp hlong, Nat.not_lt.mp hpassword⟩,
            eq_false_of_ne_true htaken⟩

/-- `upsertPrimaryUser` refuses an input exactly where the client is not accepted. -/
theorem upsertPrimaryUser_refuses_iff (s : Db) (providerId username : Text)
    (password : Option Text) (draw : Draw) :
    (∃ e, upsertPrimaryUser pbkdf2 s providerId username password draw = .error e ∧
      e.ofInput = true) ↔ ¬ClientOk s providerId username password := by
  rw [upsertPrimaryUser, ClientOk]
  cases firstBy User.before (usersOf s providerId) with
  | some primary => exact updateUser_refuses_iff s providerId primary.id username password draw
  | none =>
    dsimp only
    by_cases hpassword : password.getD [] = []
    · rw [if_pos hpassword]
      exact iff_of_true ⟨_, rfl, rfl⟩ fun h => h.1 hpassword
    · rw [if_neg hpassword, createUser_refuses_iff]
      exact not_congr ⟨fun h => ⟨hpassword, h⟩, And.right⟩

theorem batch_eq_iff {merged : Provider} :
    batch s input merged = s ↔ ∀ p ∈ s.providers, batchRow input merged p = p := by
  constructor
  · intro h p hp
    have hmap : s.providers.map (batchRow input merged) = s.providers.map id := by
      rw [List.map_id]
      exact congrArg Db.providers h
    exact List.map_inj_left.mp hmap p hp
  · intro h
    have hmap : s.providers.map (batchRow input merged) = s.providers :=
      (List.map_congr_left h).trans (List.map_id _)
    rw [batch, hmap]

/-- **A rejected update changes nothing** exactly where the client is accepted that it asks for, or
what the provider is given is what is stored. -/
theorem rejected_update_changes_nothing_iff (s : Db) (id : Text) (input : UpdateProviderInput)
    (draw : Draw) :
    (∀ e, (updateProvider U parseUrl pbkdf2 s id input draw).1 = .error e → e.ofInput = true →
      (updateProvider U parseUrl pbkdf2 s id input draw).2 = s) ↔
      ∀ existing merged, plan U parseUrl s id input draw = .ok (existing, merged) →
        input.touchesClient = true →
        ClientOk s id (input.clientName existing) input.password ∨
          ∀ p ∈ s.providers, batchRow input merged p = p := by
  rw [updateProvider]
  cases hplan : plan U parseUrl s id input draw with
  | error e => exact iff_of_true (fun _ _ _ => rfl) (by rintro _ _ ⟨⟩)
  | ok rows =>
    obtain ⟨existing, merged⟩ := rows
    dsimp only
    -- the last failure, a provider that is gone, is none of the input
    have hreload : ∀ t : Db, ∀ e, (match getProviderById t id with
        | none => (Except.error Failure.notReloaded, t)
        | some p => (.ok p, t)).1 = .error e → e.ofInput = false := by
      intro t e he
      split at he
      · obtain rfl := Except.error.inj he
        rfl
      · cases he
    by_cases htouch : input.touchesClient = true
    · rw [if_pos htouch]
      have hrefuses := @upsertPrimaryUser_refuses_iff pbkdf2 (batch s input merged) id
        (input.clientName existing) input.password draw
      have hclient : ClientOk (batch s input merged) id (input.clientName existing) input.password ↔
        ClientOk s id (input.clientName existing) input.password := Iff.rfl
      rw [hclient] at hrefuses
      cases hstored : upsertPrimaryUser pbkdf2 (batch s input merged) id
          (input.clientName existing) input.password draw with
      | error e =>
        rw [hstored] at hrefuses
        dsimp only
        -- the batch is already written: nothing has changed only if it changes nothing
        constructor
        · rintro h _ _ heq -
          obtain ⟨rfl, rfl⟩ := Prod.mk.inj (Except.ok.inj heq)
          by_cases hof : e.ofInput = true
          · exact .inr (batch_eq_iff.mp (h e rfl hof))
          · refine .inl (not_not.mp fun hno => hof ?_)
            obtain ⟨e', he', hof'⟩ := hrefuses.mpr hno
            rw [Except.error.inj he']
            exact hof'
        · intro h e' he' hof
          obtain rfl := Except.error.inj he'
          rcases h existing merged rfl htouch with hok | hsame
          · exact absurd hok (hrefuses.mp ⟨e, rfl, hof⟩)
          · exact batch_eq_iff.mpr hsame
      | ok t =>
        rw [hstored] at hrefuses
        dsimp only
        refine iff_of_true ?_ ?_
        · intro e he hof
          rw [hreload t e he] at hof
          cases hof
        · rintro _ _ heq -
          obtain ⟨rfl, rfl⟩ := Prod.mk.inj (Except.ok.inj heq)
          exact .inl (not_not.mp fun hno => by obtain ⟨_, h, -⟩ := hrefuses.mpr hno; cases h)
    · rw [if_neg htouch]
      refine iff_of_true ?_ fun _ _ _ h => absurd h htouch
      intro e he hof
      rw [hreload _ e he] at hof
      cases hof

/-! ### A name that is taken -/

/-- A user of the only provider. -/
def client (id username : String) : User :=
  ⟨id.toList, "p".toList, username.toList, [],
    hashProviderPassword toyKey username.toList (List.replicate 16 7), 1, id.toList, id.toList⟩

/-- One provider with two users. -/
def stored : Db :=
  ⟨[⟨"p".toList, "Home".toList, "http://example.com".toList, "home".toList, "u".toList, "w".toList,
      "ann".toList, [], 0, 1, 1, "1".toList⟩], [client "1" "ann", client "2" "bob"]⟩

/-- A new name for the provider, and for the client a name that is taken. -/
def newNames : UpdateProviderInput :=
  ⟨some "Office".toList, none, none, none, none, some "bob".toList, none, none, none, none⟩

/-- Times and a salt. -/
def drawn : Draw :=
  ⟨"2".toList, "3".toList, "4".toList, "5".toList, ⟨List.replicate 16 7, by decide⟩⟩

/-- The update is rejected, and the provider has the new name. -/
theorem rejected_update_changes_provider :
    ¬∀ (s : Db) (id : Text) (input : UpdateProviderInput) (draw : Draw) (e : Failure),
      (updateProvider asciiOnly (fun _ => none) toyKey s id input draw).1 = .error e →
      e.ofInput = true → (updateProvider asciiOnly (fun _ => none) toyKey s id input draw).2 = s := by
  intro h
  have hrun : (match (updateProvider asciiOnly (fun _ => none) toyKey stored "p".toList newNames
        drawn).1 with | .error e => some e | .ok _ => none) =
      some (.user (.duplicate "bob".toList)) ∧
      (updateProvider asciiOnly (fun _ => none) toyKey stored "p".toList newNames drawn).2 ≠
        stored := by
    decide +kernel
  have herror : (updateProvider asciiOnly (fun _ => none) toyKey stored "p".toList newNames
      drawn).1 = .error (.user (.duplicate "bob".toList)) := by
    have hfirst := hrun.1
    split at hfirst
    · next e he => rw [he, Option.some.inj hfirst]
    · cases hfirst
  exact hrun.2 (h stored "p".toList newNames drawn _ herror rfl)

end IptvProxy.Users.ProviderUpdate
