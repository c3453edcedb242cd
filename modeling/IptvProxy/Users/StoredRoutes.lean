import IptvProxy.Lib.Agents
import IptvProxy.Lib.Transition
import IptvProxy.Routing.Canonical
import IptvProxy.Users.ProviderUpdate

/-!
# Stored routes

All that writes `iptv_providers`: `createProvider`, `updateProvider`, `setDefaultProvider` and
`deleteProvider` of `lib/services/provider.service.ts`, and `syncLegacyIdentity` of
`lib/services/provider-user.service.ts`. The calls of the first two run at the same time, and others
write between what they read and what they write. A batch is one step and respects the constraints
of the table.

A route is stored as `normalizeRoute` returns it. If it has been cut off behind a dash, it is not
canonical: the admin interface does not find its provider, and another provider can have the route
without the dash (`cut_route_is_not_canonical`). Where no route is cut off in this way, every stored
route is canonical, both resolvers select its provider, and no two of them are normalised to the
same text (`stored_routes_are_canonical`).
-/

namespace IptvProxy.Users.StoredRoutes

open GoText Js ProviderUpdate
open Routing (normalizeRoute Whole Selects routePath normalizeRoute_normalizeRoute_iff)

/-- A row of `iptv_providers`. -/
abbrev Row := ProviderUpdate.Provider

/-! ## createProvider -/

/-- `CreateProviderInput` -/
structure CreateProviderInput where
  /-- `name` -/
  name : Text
  /-- `host` -/
  host : Text
  /-- `route` -/
  route : Text
  /-- `upstream_username` -/
  upstreamUsername : Text
  /-- `upstream_password` -/
  upstreamPassword : Text
  /-- `local_username` -/
  localUsername : Text
  /-- `local_password` -/
  localPassword : Text
  /-- `is_default` -/
  isDefault : Option Bool
  /-- `cache_duration_hours` -/
  cacheDurationHours : Option ℚ
  /-- `enabled` -/
  enabled : Option Bool

/-- Why a provider is not created. -/
inductive Refusal where
  /-- the host is no URL of a server -/
  | host (failure : Failure)
  /-- the name is empty -/
  | nameRequired
  /-- the route is empty -/
  | routeRequired
  /-- the route is reserved -/
  | routeReserved (route : Text)
  /-- the username is empty -/
  | usernameRequired
  /-- the password is empty -/
  | passwordRequired
  /-- the password is too long -/
  | passwordLong
  /-- another provider has the route -/
  | routeTaken (route : Text)
  deriving DecidableEq

/-- The texts of the errors. -/
def Refusal.text : Refusal → String
  | host failure => failure.text
  | nameRequired => "Provider name is required."
  | routeRequired => "Provider route is required and must contain letters or numbers."
  | routeReserved route => s!"Route \"{String.ofList route}\" is reserved by the system."
  | usernameRequired => "Initial client username is required."
  | passwordRequired => "Initial client password is required."
  | passwordLong => "Initial client password is too long."
  | routeTaken route => s!"Route \"{String.ofList route}\" is already in use."

/-- What `createProvider` draws. -/
structure CreateDraw where
  /-- `id` -/
  id : Text
  /-- `providerUserId` -/
  userId : Text
  /-- `now` -/
  now : Text
  /-- `crypto.randomBytes` -/
  salt : Update.Salt

variable (U : Unicode) (parseUrl : Text → Option Url) (pbkdf2 : Text → Bytes → ℕ → ℕ → Bytes)

/-- What `createProvider` does before it asks for the route: the two rows that it inserts. -/
def planCreate (input : CreateProviderInput) (draw : CreateDraw) : Except Refusal (Row × User) :=
  let name := trim input.name
  let route := normalizeRoute U input.route
  let localUsername := trim input.localUsername
  match normalizeHost parseUrl input.host with
  | .error e => .error (.host e)
  | .ok host =>
    if name = [] then .error .nameRequired
    else if route = [] then .error .routeRequired
    else if isRouteReserved U route then .error (.routeReserved route)
    else if localUsername = [] then .error .usernameRequired
    else if input.localPassword = [] then .error .passwordRequired
    else if 4096 < Js.length input.localPassword then .error .passwordLong
    else .ok (
      { id := draw.id
        name := name
        host := host
        route := route
        upstreamUsername := trim input.upstreamUsername
        upstreamPassword := input.upstreamPassword
        localUsername := localUsername
        localPassword := []
        isDefault := if input.isDefault = some true then 1 else 0
        cacheDurationHours := max 0 (min 24 (trunc (input.cacheDurationHours.getD 1)))
        enabled := if input.enabled = some false then 0 else 1
        updatedAt := draw.now },
      { id := draw.userId
        providerId := draw.id
        username := localUsername
        password := []
        passwordHash := hashProviderPassword pbkdf2 input.localPassword draw.salt.1
        enabled := 1
        createdAt := draw.now
        updatedAt := draw.now })

/-- `UPDATE iptv_providers SET is_default = 0, updated_at = ? WHERE is_default = 1` -/
def clearDefault (time : Text) (p : Row) : Row :=
  if p.isDefault = 1 then { p with isDefault := 0, updatedAt := time } else p

/-- The batch of `createProvider` -/
def insertBatch (s : Db) (row : Row) (user : User) : Db where
  providers := (if row.isDefault = 1 then s.providers.map (clearDefault row.updatedAt)
    else s.providers) ++ [row]
  users := s.users ++ [user]

/-! ## updateProvider -/

/-- `updateProvider` up to the route: the row that it reads. -/
def load (s : Db) (id : Text) (input : UpdateProviderInput) : Except Failure Row :=
  match s.providers.find? fun p => p.id = id with
  | none => .error .notFound
  | some existing =>
    if (input.name.map trim).getD existing.name = [] then .error .nameEmpty else .ok existing

/-- `updateProvider` from the route on: the row that it is going to write. -/
def mergeRow (s : Db) (existing : Row) (input : UpdateProviderInput) (draw : Draw) :
    Except Failure Row := do
  let route ← newRoute U s existing input
  let host ← match input.host with
    | none => .ok existing.host
    | some host => normalizeHost parseUrl host
  return { existing with
    name := (input.name.map trim).getD existing.name
    host := host
    route := route
    upstreamUsername := (input.upstreamUsername.map trim).getD existing.upstreamUsername
    upstreamPassword := (input.upstreamPassword.filter (· ≠ mask)).getD existing.upstreamPassword
    isDefault := (input.isDefault.map fun b => if b then 1 else 0).getD existing.isDefault
    cacheDurationHours := (input.cacheDurationHours.map fun h => max 0 (min 24 (trunc h))).getD
      existing.cacheDurationHours
    enabled := (input.enabled.map fun b => if b then 1 else 0).getD existing.enabled
    localPassword := []
    updatedAt := draw.now }

/-- If nobody writes in between, this is `plan`. -/
theorem plan_eq (s : Db) (id : Text) (input : UpdateProviderInput) (draw : Draw) :
    plan U parseUrl s id input draw = (load s id input).bind fun existing =>
      (mergeRow U parseUrl s existing input draw).map fun merged => (existing, merged) := by
  rw [plan, load]
  cases s.providers.find? fun p => p.id = id with
  | none => rfl
  | some existing =>
    dsimp only
    by_cases hname : (input.name.map trim).getD existing.name = []
    · rw [if_pos hname, if_pos hname]
      rfl
    · rw [if_neg hname, if_neg hname]
      change _ = (mergeRow U parseUrl s existing input draw).map fun merged => (existing, merged)
      rw [mergeRow]
      cases newRoute U s existing input with
      | error e => rfl
      | ok route =>
        cases input.host with
        | none => rfl
        | some host =>
          dsimp only [bind, Except.bind]
          cases normalizeHost parseUrl host with
          | error e => rfl
          | ok host => rfl

/-! ## The table -/

/-- The batch of `setDefaultProvider` -/
def setDefaultBatch (s : Db) (id time : Text) : Db :=
  { s with providers := s.providers.map fun p =>
      let p := clearDefault time p
      if p.id = id then { p with isDefault := 1, updatedAt := time } else p }

/-- The statement of `deleteProvider`, with the users that go with the provider -/
def deleteStatement (s : Db) (id : Text) : Db where
  providers := s.providers.filter fun p => p.id ≠ id
  users := s.users.filter fun u => u.providerId ≠ id

/-- The primary key, `route TEXT UNIQUE` and `idx_iptv_single_default`. -/
structure Constraints (s : Db) : Prop where
  /-- of the primary key -/
  id : s.providers.Pairwise fun p q => p.id ≠ q.id
  /-- of the routes -/
  route : s.providers.Pairwise fun p q => p.route ≠ q.route
  /-- of the default -/
  singleDefault : s.providers.Pairwise fun p q => ¬(p.isDefault = 1 ∧ q.isDefault = 1)

instance (s : Db) : Decidable (Constraints s) :=
  decidable_of_iff ((s.providers.Pairwise fun p q => p.id ≠ q.id) ∧
      (s.providers.Pairwise fun p q => p.route ≠ q.route) ∧
      s.providers.Pairwise fun p q => ¬(p.isDefault = 1 ∧ q.isDefault = 1))
    ⟨fun h => ⟨h.1, h.2.1, h.2.2⟩, fun h => ⟨h.id, h.route, h.singleDefault⟩⟩

/-- What a statement or a batch leaves, unless a constraint rejects it. -/
def commit (s : Db) : Option Db := if Constraints s then some s else none

/-! ## Calls -/

/-- Where a call is. -/
inductive Pc where
  /-- `createProvider` asks for the route -/
  | routeCheck (row : Row) (user : User)
  /-- `createProvider` inserts -/
  | insert (row : Row) (user : User)
  /-- `updateProvider` reads the provider -/
  | load (id : Text) (input : UpdateProviderInput) (draw : Draw)
  /-- `updateProvider` asks for the route -/
  | check (existing : Row) (input : UpdateProviderInput) (draw : Draw)
  /-- `updateProvider` writes -/
  | write (input : UpdateProviderInput) (merged : Row)
  /-- the batch is done; what follows writes no route -/
  | written
  /-- an error with this text -/
  | refused (message : String)
  /-- the database has thrown -/
  | thrown

/-- The tables and the calls. -/
structure State where
  /-- the tables -/
  db : Db
  /-- the calls -/
  threads : List Pc

/-- Nothing is stored yet. -/
def State.initial : State := ⟨⟨[], []⟩, []⟩

/-- What happens next. -/
inductive Action where
  /-- a call of `createProvider` -/
  | create (input : CreateProviderInput) (draw : CreateDraw)
  /-- a call of `updateProvider` -/
  | update (id : Text) (input : UpdateProviderInput) (draw : Draw)
  /-- call `i` goes on, and what it has asked the database for fails or not -/
  | run (i : ℕ) (fails : Bool)
  /-- `setDefaultProvider` writes -/
  | setDefault (id time : Text)
  /-- `deleteProvider` writes -/
  | delete (id : Text)
  /-- `provider_users` is written -/
  | users (users : List User)
  /-- `syncLegacyIdentity` writes -/
  | sync (providerId time : Text)

/-- Call `i` goes on to `pc`. -/
def State.goto (s : State) (i : ℕ) (pc : Pc) : State := { s with threads := s.threads.set i pc }

/-- The batch of call `i`. -/
def State.batch (s : State) (i : ℕ) (db : Db) : State :=
  match commit db with
  | none => s.goto i .thrown
  | some db => ⟨db, s.threads.set i .written⟩

/-- One step of call `i`. -/
def stepThread (s : State) (i : ℕ) : Pc → Option State
  | .routeCheck row user => some <| s.goto i <|
    if s.db.providers.any fun p => p.route = row.route then
      .refused (Refusal.routeTaken row.route).text
    else .insert row user
  | .insert row user => some (s.batch i (insertBatch s.db row user))
  | .load id input draw => some <| s.goto i <|
    match load s.db id input with
    | .error e => .refused e.text
    | .ok existing => .check existing input draw
  | .check existing input draw => some <| s.goto i <|
    match mergeRow U parseUrl s.db existing input draw with
    | .error e => .refused e.text
    | .ok merged => .write input merged
  | .write input merged => some (s.batch i (ProviderUpdate.batch s.db input merged))
  | _ => none

/-- What is stored is replaced. -/
def State.store (s : State) (db : Db) : Option State :=
  (commit db).map fun db => { s with db := db }

/-- The step function. -/
def step (s : State) : Action → Option State
  | .create input draw => some { s with threads := s.threads ++ [
      match planCreate U parseUrl pbkdf2 input draw with
      | .error e => .refused e.text
      | .ok (row, user) => .routeCheck row user] }
  | .update id input draw => some { s with threads := s.threads ++ [.load id input draw] }
  | .run i fails => s.threads[i]?.bind fun pc =>
    if fails then some (s.goto i .thrown) else stepThread U parseUrl s i pc
  | .setDefault id time => s.store (setDefaultBatch s.db id time)
  | .delete id => s.store (deleteStatement s.db id)
  | .users users => s.store { s.db with users := users }
  | .sync providerId time => s.store (syncLegacyIdentity s.db providerId time)

/-- No route is cut off behind a dash. -/
def Action.Whole : Action → Prop
  | .create input _ => Routing.Whole U input.route
  | .update _ input _ => ∀ route ∈ input.route, Routing.Whole U route
  | _ => True

instance : DecidablePred (Action.Whole U)
  | .create input _ => inferInstanceAs (Decidable (Routing.Whole U input.route))
  | .update _ input _ => inferInstanceAs (Decidable (∀ route ∈ input.route, Routing.Whole U route))
  | .run _ _ => .isTrue trivial
  | .setDefault _ _ => .isTrue trivial
  | .delete _ => .isTrue trivial
  | .users _ => .isTrue trivial
  | .sync _ _ => .isTrue trivial

/-! ## What is stored -/

/-- A row, as it is resolved. -/
def resolved (p : Row) : Routing.Provider := ⟨p.id, p.route, p.isDefault⟩

/-- The enabled providers. -/
def enabledProviders (s : Db) : List Routing.Provider :=
  (s.providers.filter fun p => p.enabled = 1).map resolved

/-- Every route is canonical, whatever follows it in a path both resolvers select its provider if it
is enabled, and no two of them are normalised to the same text. -/
structure RoutesOk (s : Db) : Prop where
  /-- canonical -/
  canonical : ∀ p ∈ s.providers, normalizeRoute U p.route = p.route
  /-- selected, in whatever order the providers are read -/
  selected : ∀ p ∈ s.providers, p.enabled = 1 → ∀ providers : List Routing.Provider,
    providers.Perm (enabledProviders s) → ∀ suffix,
      Selects U providers (resolved p) (routePath p.route suffix)
  /-- distinct -/
  distinct : s.providers.Pairwise fun p q => normalizeRoute U p.route ≠ normalizeRoute U q.route

/-- A route that is not empty and canonical. -/
def IsRoute (route : Text) : Prop := route ≠ [] ∧ normalizeRoute U route = route

/-- What a call is going to store is one. -/
def Pc.Ok : Pc → Prop
  | .routeCheck row _ => IsRoute U row.route
  | .insert row _ => IsRoute U row.route
  | .load _ input _ => ∀ route ∈ input.route, Routing.Whole U route
  | .check existing input _ =>
    IsRoute U existing.route ∧ ∀ route ∈ input.route, Routing.Whole U route
  | .write _ merged => IsRoute U merged.route
  | _ => True

/-- **The invariant.** -/
structure State.Inv (s : State) : Prop where
  /-- the constraints hold -/
  constraints : Constraints s.db
  /-- every stored route is one -/
  rows : ∀ p ∈ s.db.providers, IsRoute U p.route
  /-- so is what the calls are going to store -/
  threads : ∀ pc ∈ s.threads, pc.Ok U

variable {U parseUrl pbkdf2} {s t : State} {db : Db} {pc : Pc} {i : ℕ} {row merged existing : Row}
  {user : User} {route : Text} {p : Row}

/-! ## What a call stores -/

theorem isRoute_normalizeRoute (hne : normalizeRoute U route ≠ []) (h : Routing.Whole U route) :
    IsRoute U (normalizeRoute U route) :=
  ⟨hne, (normalizeRoute_normalizeRoute_iff U route).mpr h⟩

theorem ite_error_eq_ok {ε α : Type} {c : Prop} [Decidable c] {e : ε} {x : Except ε α} {a : α} :
    (if c then .error e else x) = .ok a ↔ ¬c ∧ x = .ok a := by
  split
  · next hc => exact iff_of_false nofun fun h => h.1 hc
  · next hc => exact (and_iff_right hc).symm

theorem isRoute_of_planCreate {input : CreateProviderInput} {draw : CreateDraw}
    (hok : planCreate U parseUrl pbkdf2 input draw = .ok (row, user))
    (h : Routing.Whole U input.route) : IsRoute U row.route := by
  rw [planCreate] at hok
  cases hhost : normalizeHost parseUrl input.host with
  | error e =>
    rw [hhost] at hok
    cases hok
  | ok host =>
    rw [hhost] at hok
    simp only [ite_error_eq_ok] at hok
    obtain ⟨-, hne, -, -, -, -, hrow⟩ := hok
    obtain ⟨rfl, -⟩ := Prod.mk.inj (Except.ok.inj hrow)
    exact isRoute_normalizeRoute hne h

theorem isRoute_of_newRoute {tables : Db} {input : UpdateProviderInput}
    (hok : newRoute U tables existing input = .ok route) (hexisting : IsRoute U existing.route)
    (h : ∀ route ∈ input.route, Routing.Whole U route) : IsRoute U route := by
  rw [newRoute] at hok
  cases hroute : input.route with
  | none =>
    rw [hroute] at hok
    obtain rfl := Except.ok.inj hok
    exact hexisting
  | some asked =>
    rw [hroute] at hok
    simp only [ite_error_eq_ok] at hok
    obtain ⟨hne, -, -, hrow⟩ := hok
    obtain rfl := Except.ok.inj hrow
    exact isRoute_normalizeRoute hne (h asked hroute)

theorem isRoute_of_mergeRow {tables : Db} {input : UpdateProviderInput} {draw : Draw}
    (hok : mergeRow U parseUrl tables existing input draw = .ok merged)
    (hexisting : IsRoute U existing.route) (h : ∀ route ∈ input.route, Routing.Whole U route) :
    IsRoute U merged.route := by
  have hroute : ∃ route, newRoute U tables existing input = .ok route ∧ merged.route = route := by
    rw [mergeRow] at hok
    cases hnew : newRoute U tables existing input with
    | error e =>
      rw [hnew] at hok
      cases hok
    | ok route =>
      rw [hnew] at hok
      refine ⟨route, rfl, ?_⟩
      dsimp only [bind, Except.bind] at hok
      cases hhost : input.host with
      | none =>
        rw [hhost] at hok
        obtain rfl := Except.ok.inj hok
        rfl
      | some host =>
        rw [hhost] at hok
        dsimp only at hok
        cases hnormalized : normalizeHost parseUrl host with
        | error e =>
          rw [hnormalized] at hok
          cases hok
        | ok host =>
          rw [hnormalized] at hok
          obtain rfl := Except.ok.inj hok
          rfl
  obtain ⟨route, hnew, hmerged⟩ := hroute
  rw [hmerged]
  exact isRoute_of_newRoute hnew hexisting h

theorem mem_of_load {tables : Db} {id : Text} {input : UpdateProviderInput}
    (hok : load tables id input = .ok existing) : existing ∈ tables.providers := by
  rw [load] at hok
  cases hfind : tables.providers.find? fun p => p.id = id with
  | none =>
    rw [hfind] at hok
    cases hok
  | some found =>
    rw [hfind] at hok
    simp only [ite_error_eq_ok] at hok
    obtain rfl := Except.ok.inj hok.2
    exact List.mem_of_find?_eq_some hfind

/-! ## What is in the table afterwards -/

/-- A statement that keeps the route of a row or writes a good one. -/
theorem isRoute_map {rows : List Row} {f : Row → Row} (h : ∀ p ∈ rows, IsRoute U p.route)
    (hf : ∀ p, (f p).route = p.route ∨ IsRoute U (f p).route) :
    ∀ p ∈ rows.map f, IsRoute U p.route := by
  intro p hp
  obtain ⟨q, hq, rfl⟩ := List.mem_map.mp hp
  rcases hf q with hroute | hgood
  · rw [hroute]
    exact h q hq
  · exact hgood

theorem clearDefault_route (time : Text) (p : Row) : (clearDefault time p).route = p.route := by
  rw [clearDefault]
  split
  · rfl
  · rfl

theorem isRoute_insertBatch {tables : Db} (h : ∀ p ∈ tables.providers, IsRoute U p.route)
    (hrow : IsRoute U row.route) :
    ∀ p ∈ (insertBatch tables row user).providers, IsRoute U p.route := by
  refine List.forall_mem_append.mpr ⟨?_, List.forall_mem_singleton.mpr hrow⟩
  split
  · exact isRoute_map h fun p => .inl (clearDefault_route _ p)
  · exact h

theorem batchRow_route (input : UpdateProviderInput) (merged p : Row) :
    (batchRow input merged p).route = p.route ∨ (batchRow input merged p).route = merged.route := by
  rw [batchRow]
  by_cases hclear : input.isDefault = some true ∧ p.isDefault = 1 ∧ p.id ≠ merged.id
  · rw [if_pos hclear]
    split
    · exact .inr rfl
    · exact .inl rfl
  · rw [if_neg hclear]
    split
    · exact .inr rfl
    · exact .inl rfl

theorem isRoute_batch {tables : Db} (h : ∀ p ∈ tables.providers, IsRoute U p.route)
    (input : UpdateProviderInput) (hmerged : IsRoute U merged.route) :
    ∀ p ∈ (ProviderUpdate.batch tables input merged).providers, IsRoute U p.route := by
  refine isRoute_map h fun p => (batchRow_route input merged p).imp_right fun hroute => ?_
  rw [hroute]
  exact hmerged

theorem isRoute_setDefaultBatch {tables : Db} (h : ∀ p ∈ tables.providers, IsRoute U p.route)
    (id time : Text) : ∀ p ∈ (setDefaultBatch tables id time).providers, IsRoute U p.route := by
  refine isRoute_map h fun p => .inl ?_
  dsimp only
  split
  · exact clearDefault_route time p
  · exact clearDefault_route time p

theorem isRoute_syncLegacyIdentity {tables : Db} (h : ∀ p ∈ tables.providers, IsRoute U p.route)
    (providerId time : Text) :
    ∀ p ∈ (syncLegacyIdentity tables providerId time).providers, IsRoute U p.route := by
  refine isRoute_map h fun p => .inl ?_
  split
  · rfl
  · rfl

/-! ## The invariant -/

theorem commit_eq_some {tables : Db} (h : commit tables = some db) :
    Constraints tables ∧ db = tables := by
  rw [commit] at h
  split at h
  · next hconstraints => exact ⟨hconstraints, (Option.some.inj h).symm⟩
  · cases h

theorem State.Inv.goto (h : s.Inv U) (i : ℕ) (hpc : pc.Ok U) : (s.goto i pc).Inv U where
  constraints := h.constraints
  rows := h.rows
  threads := Agents.forall_mem_set h.threads hpc

theorem State.Inv.batch (h : s.Inv U) (i : ℕ) (hrows : ∀ p ∈ db.providers, IsRoute U p.route) :
    (s.batch i db).Inv U := by
  rw [State.batch]
  cases hcommit : commit db with
  | none => exact h.goto i trivial
  | some tables =>
    obtain ⟨hconstraints, rfl⟩ := commit_eq_some hcommit
    exact ⟨hconstraints, hrows, Agents.forall_mem_set h.threads trivial⟩

theorem State.Inv.store (h : s.Inv U) (hrows : ∀ p ∈ db.providers, IsRoute U p.route)
    (hstore : s.store db = some t) : t.Inv U := by
  obtain ⟨tables, hcommit, rfl⟩ := Option.map_eq_some_iff.mp hstore
  obtain ⟨hconstraints, rfl⟩ := commit_eq_some hcommit
  exact ⟨hconstraints, hrows, h.threads⟩

/-- A call is added. -/
theorem State.Inv.call (h : s.Inv U) (hpc : pc.Ok U) :
    State.Inv U { s with threads := s.threads ++ [pc] } where
  constraints := h.constraints
  rows := h.rows
  threads := List.forall_mem_append.mpr ⟨h.threads, List.forall_mem_singleton.mpr hpc⟩

/-- **Step of a call.** -/
theorem State.Inv.stepThread (h : s.Inv U) (i : ℕ) (hpc : pc.Ok U)
    (hstep : stepThread U parseUrl s i pc = some t) : t.Inv U := by
  cases pc with
  | routeCheck row user =>
    obtain rfl := Option.some.inj hstep
    refine h.goto i ?_
    split
    · trivial
    · exact hpc
  | insert row user =>
    obtain rfl := Option.some.inj hstep
    exact h.batch i (isRoute_insertBatch h.rows hpc)
  | load id input draw =>
    obtain rfl := Option.some.inj hstep
    refine h.goto i ?_
    cases hload : load s.db id input with
    | error e => trivial
    | ok existing => exact ⟨h.rows existing (mem_of_load hload), hpc⟩
  | check existing input draw =>
    obtain rfl := Option.some.inj hstep
    refine h.goto i ?_
    cases hmerge : mergeRow U parseUrl s.db existing input draw with
    | error e => trivial
    | ok merged => exact isRoute_of_mergeRow hmerge hpc.1 hpc.2
  | write input merged =>
    obtain rfl := Option.some.inj hstep
    exact h.batch i (isRoute_batch h.rows input hpc)
  | written => cases hstep
  | refused message => cases hstep
  | thrown => cases hstep

/-- **Step.** -/
theorem State.Inv.step {a : Action} (h : s.Inv U) (ha : a.Whole U)
    (hstep : step U parseUrl pbkdf2 s a = some t) : t.Inv U := by
  cases a with
  | create input draw =>
    obtain rfl := Option.some.inj hstep
    refine h.call ?_
    cases hplan : planCreate U parseUrl pbkdf2 input draw with
    | error e => trivial
    | ok rows => exact isRoute_of_planCreate hplan ha
  | update id input draw =>
    obtain rfl := Option.some.inj hstep
    exact h.call ha
  | run i fails =>
    obtain ⟨pc, hpc, hstep⟩ := Option.bind_eq_some_iff.mp hstep
    cases fails with
    | true =>
      obtain rfl := Option.some.inj hstep
      exact h.goto i trivial
    | false => exact h.stepThread i (h.threads pc (List.mem_of_getElem? hpc)) hstep
  | setDefault id time => exact h.store (isRoute_setDefaultBatch h.rows id time) hstep
  | delete id =>
    exact h.store (fun p hp => h.rows p (List.mem_of_mem_filter hp)) hstep
  | users users => exact @State.Inv.store U s t { s.db with users := users } h h.rows hstep
  | sync providerId time =>
    exact h.store (isRoute_syncLegacyIdentity h.rows providerId time) hstep

theorem State.inv_initial : State.initial.Inv U where
  constraints := ⟨List.Pairwise.nil, List.Pairwise.nil, List.Pairwise.nil⟩
  rows := List.forall_mem_nil _
  threads := List.forall_mem_nil _

/-! ## Reachable routes -/

/-- What the invariant says of the enabled providers. -/
theorem State.Inv.routes (h : s.Inv U) : Routing.Routes U (enabledProviders s.db) where
  distinct := List.pairwise_map.mpr (h.constraints.route.filter _)
  nonempty := by
    rintro q hq
    obtain ⟨p, hp, rfl⟩ := List.mem_map.mp hq
    exact (h.rows p (List.mem_of_mem_filter hp)).1
  normalized := by
    rintro q hq
    obtain ⟨p, hp, rfl⟩ := List.mem_map.mp hq
    exact (h.rows p (List.mem_of_mem_filter hp)).2
  oneDefault := List.pairwise_map.mpr (h.constraints.singleDefault.filter _)

theorem State.Inv.routesOk (h : s.Inv U) : RoutesOk U s.db where
  canonical p hp := (h.rows p hp).2
  selected p hp henabled providers hperm suffix := by
    have hmem : resolved p ∈ providers :=
      hperm.mem_iff.mpr (List.mem_map_of_mem (List.mem_filter.mpr ⟨hp, decide_eq_true henabled⟩))
    exact (h.routes.perm hperm).selects hmem suffix
  distinct := h.constraints.route.imp_of_mem fun {p q} hp hq hne => by
    rw [(h.rows p hp).2, (h.rows q hq).2]
    exact hne

/-- **Run.** -/
theorem State.Inv.run {start : State} (h : start.Inv U)
    (hrun : Transition.Run (StoredRoutes.step U parseUrl pbkdf2) (fun _ a => a.Whole U) start s) :
    s.Inv U :=
  hrun.invariant (fun _ _ _ h ha hstep => State.Inv.step h ha hstep) h

/-- A route that is normalised is canonical if and only if it is not cut off behind a dash. In every
run in which no call asks for a route that is, all stored routes are canonical and distinct, and
both resolvers select their providers. -/
theorem stored_routes_are_canonical (route : Text)
    (h : Transition.Run (step U parseUrl pbkdf2) (fun _ a => a.Whole U) State.initial s) :
    (normalizeRoute U (normalizeRoute U route) = normalizeRoute U route ↔ Routing.Whole U route) ∧
      RoutesOk U s.db :=
  ⟨normalizeRoute_normalizeRoute_iff U route, (State.inv_initial.run h).routesOk⟩

/-! ### A route and its cut -/

/-- Every host is a URL of a server. -/
def anyUrl : Text → Option Url := fun _ => some ⟨"http:".toList, [], [], [], []⟩

/-- No password is hashed. -/
def noKey : Text → Bytes → ℕ → ℕ → Bytes := fun _ _ _ _ => []

/-- A provider with this route. -/
def withRoute (route : Text) : CreateProviderInput :=
  ⟨"Home".toList, "http://h".toList, route, "u".toList, "w".toList, "ann".toList, "pw".toList, none,
    none, none⟩

/-- What is drawn for it. -/
def drawn (id : String) : CreateDraw :=
  ⟨id.toList, id.toList, "1".toList, ProviderUpdate.drawn.salt⟩

/-- A provider is created, and then has another route. -/
def renamed : List Action :=
  [.create (withRoute "/Sports/".toList) (drawn "1"), .run 0 false, .run 0 false,
    .update "1".toList ⟨none, none, some "News & more".toList, none, none, none, none, none, none,
      none⟩ ProviderUpdate.drawn, .run 1 false, .run 1 false, .run 1 false]

theorem renamed_route_is_canonical : ∃ s : State,
    Transition.Run (step asciiOnly anyUrl noKey) (fun _ a => a.Whole asciiOnly) State.initial s ∧
      s.db.providers.map ProviderUpdate.Provider.route = ["news-more".toList] ∧
      RoutesOk asciiOnly s.db := by
  have hwhole : ∀ a ∈ renamed, a.Whole asciiOnly := by decide
  have hexec : (Transition.exec (step asciiOnly anyUrl noKey) State.initial renamed).map
      (fun s => s.db.providers.map ProviderUpdate.Provider.route) = some ["news-more".toList] := by
    decide
  obtain ⟨s, hrun, hs⟩ := Transition.Run.of_eval (fun a ha _ => hwhole a ha) hexec
  exact ⟨s, hrun, hs, (stored_routes_are_canonical [] hrun).2⟩

/-- `toLowerCase` with the capital letter that becomes two characters: `i` and a dot above. -/
def lowerDotted (s : Text) : Text :=
  s.flatMap fun c => if c = 'İ' then ['i', Char.ofNat 0x307] else [c.toLower]

theorem lowerDotted_ascii (s : Text) (h : IsAscii s) : lowerDotted s = lowerAscii s := by
  induction s with
  | nil => rfl
  | cons c s ih =>
    have hc : c ≠ 'İ' := by
      rintro rfl
      exact absurd (h _ List.mem_cons_self) (by decide)
    have hrest : IsAscii s := fun d hd => h d (List.mem_cons_of_mem c hd)
    rw [lowerDotted, List.flatMap_cons, if_neg hc, ← lowerDotted, ih hrest]
    rfl

/-- Only `toLowerCase` knows this letter. -/
def dotted : Unicode :=
  { asciiOnly with jsLower := lowerDotted, jsLower_ascii := lowerDotted_ascii }

/-- What is stored for a route of 33 such letters. -/
def cutRoute : Text := (List.replicate 32 ['i', '-']).flatten

/-- The same without the dash at its end. -/
def shortRoute : Text := cutRoute.dropLast

/-- Two providers are created. -/
def twoCalls : List Action :=
  [.create (withRoute (List.replicate 33 'İ')) (drawn "1"), .run 0 false, .run 0 false,
    .create (withRoute shortRoute) (drawn "2"), .run 1 false, .run 1 false]

/-- The first route is not canonical: normalised, it is the second one, and the admin interface
selects the second provider for its path. -/
theorem cut_route_is_not_canonical : ∃ s : State,
    Transition.Run (step dotted anyUrl noKey) (fun _ _ => True) State.initial s ∧
      s.db.providers.map ProviderUpdate.Provider.route = [cutRoute, shortRoute] ∧
      normalizeRoute dotted cutRoute = shortRoute ∧
      (Routing.resolveProviderByPath dotted (enabledProviders s.db) (routePath cutRoute [])).map
        (fun r => r.provider.route) = some shortRoute ∧
      ¬RoutesOk dotted s.db := by
  have hexec : (Transition.exec (step dotted anyUrl noKey) State.initial twoCalls).map
      (fun s => (s.db.providers.map ProviderUpdate.Provider.route,
        (Routing.resolveProviderByPath dotted (enabledProviders s.db) (routePath cutRoute [])).map
          fun r => r.provider.route)) = some ([cutRoute, shortRoute], some shortRoute) := by
    decide
  have hnormal : normalizeRoute dotted cutRoute = shortRoute := by decide
  have hreached := @Transition.Run.of_eval _ _ _ (fun _ _ => True) _ _ _ _ _ (fun _ _ _ => trivial)
    hexec
  obtain ⟨s, hrun, hs⟩ := hreached
  obtain ⟨hroutes, hselected⟩ := Prod.mk.inj hs
  refine ⟨s, hrun, hroutes, hnormal, hselected, fun hok => ?_⟩
  have hcut : cutRoute ∈ s.db.providers.map ProviderUpdate.Provider.route := by
    rw [hroutes]
    exact List.mem_cons_self
  obtain ⟨p, hp, hroute⟩ := List.mem_map.mp hcut
  have hcanonical := hok.canonical p hp
  rw [hroute, hnormal] at hcanonical
  exact absurd hcanonical (by decide)

end IptvProxy.Users.StoredRoutes
