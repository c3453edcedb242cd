import IptvProxy.Lib.Values

/-!
# Providers and their client users

`User` and `Provider` of `internal/provider/registry.go`, and the authentication of clients in
`internal/proxy/xtream_request.go`. Go strings are byte strings.

`Library` collects what the code takes from elsewhere as functions: the PBKDF2 check of
`verifyProviderPassword`, the Unicode-aware functions of Go's `strings`, `url.Parse` and
`encoding/json`. Results say what they need of them.
-/

namespace IptvProxy.Xtream

/-- A JSON value; numbers keep their text (`UseNumber`). -/
inductive Json where
  | null
  | bool (b : Bool)
  | number (text : Bytes)
  | string (s : Bytes)
  | array (xs : List Json)
  | object (fields : List (Bytes × Json))

/-- The parts of a `url.URL` that the proxy reads or replaces. -/
structure URL where
  /-- `Scheme` -/
  scheme : Bytes
  /-- `Host` -/
  host : Bytes
  /-- `Path`, decoded -/
  path : Bytes
  /-- `RawQuery` -/
  rawQuery : Bytes
  deriving DecidableEq

/-- Functions from outside. -/
structure Library where
  /-- `verifyProviderPassword(password, encoded)` -/
  verifyProviderPassword : Bytes → Bytes → Bool
  /-- `strings.ToLower` -/
  toLower : Bytes → Bytes
  /-- `strings.EqualFold` -/
  equalFold : Bytes → Bytes → Bool
  /-- `strings.TrimSpace`, `bytes.TrimSpace` -/
  trimSpace : Bytes → Bytes
  /-- `url.Parse` -/
  parseURL : Bytes → Option URL
  /-- `json.Decoder.Decode` into a `map[string]any` -/
  decodeObject : Bytes → Option (List (Bytes × Json))
  /-- `json.Marshal` of a `map[string]any` -/
  marshalObject : List (Bytes × Json) → Bytes

/-- `User` -/
structure User where
  /-- `ID` -/
  id : Bytes
  /-- `Username` -/
  username : Bytes
  /-- `PasswordHash` -/
  passwordHash : Bytes
  /-- `Enabled` -/
  enabled : ℤ
  /-- `ClientPassword` -/
  clientPassword : Bytes
  deriving DecidableEq

/-- `provider.User{}` -/
def User.zero : User := ⟨[], [], [], 0, []⟩

/-- `Provider` -/
structure Provider where
  /-- `ID` -/
  id : Bytes
  /-- `Host` -/
  host : Bytes
  /-- `Route` -/
  route : Bytes
  /-- `UpstreamUsername` -/
  upstreamUsername : Bytes
  /-- `UpstreamPassword` -/
  upstreamPassword : Bytes
  /-- `Users` -/
  users : List User
  /-- `IsDefault` -/
  isDefault : ℤ
  /-- `CacheDurationHours` -/
  cacheDurationHours : ℤ
  deriving DecidableEq

variable (L : Library)

/-- The loop of `Provider.Authenticate`. -/
def Provider.authenticateUsers (username password : Bytes) : List User → Option User
  | [] => none
  | user :: users =>
    if user.enabled ≠ 1 ∨ user.username ≠ username then
      Provider.authenticateUsers username password users
    else if L.verifyProviderPassword password user.passwordHash then
      some { user with clientPassword := password }
    else Provider.authenticateUsers username password users

/-- `Provider.Authenticate` -/
def Provider.authenticate (p : Provider) (username password : Bytes) : Option User :=
  if username = [] ∨ password = [] then none else Provider.authenticateUsers L username password p.users

/-- `strings.ReplaceAll(s, " ", "+")` -/
def plusForSpaces (s : Bytes) : Bytes :=
  s.map fun c => if c = Percent.space then Percent.plus else c

/-- `authenticateXtreamClient` -/
def authenticateXtreamClient (p : Provider) (username password : Bytes) : Option User :=
  match p.authenticate L username password with
  | some user => some user
  | none =>
    let plusUsername := plusForSpaces username
    let plusPassword := plusForSpaces password
    if (plusUsername ≠ username ∨ plusPassword ≠ password) ∧ plusUsername ≠ [] ∧
        plusPassword ≠ [] then
      p.authenticate L plusUsername plusPassword
    else none

/-- `providerHasClientUsername` -/
def providerHasClientUsername (p : Provider) (username : Bytes) : Bool :=
  p.users.any fun user => user.username = username

/-- `sameClientUser` -/
def sameClientUser (left right : User) : Bool :=
  if left.id ≠ [] ∧ right.id ≠ [] then left.id = right.id
  else left.username ≠ [] ∧ left.username = right.username

/-- The user `user` with the password the client sent, if it is enabled and the stored verifier
accepts that password. -/
structure Verified (p : Provider) (username password : Bytes) (u : User) : Prop where
  /-- it is a user of the provider, with the password the client sent -/
  mem : ∃ user ∈ p.users, u = { user with clientPassword := password }
  /-- it is enabled -/
  enabled : u.enabled = 1
  /-- it has this name -/
  name : u.username = username
  /-- the name is not empty -/
  nonempty : username ≠ []
  /-- the verifier accepts the password -/
  verified : L.verifyProviderPassword password u.passwordHash = true

variable {L}

theorem Provider.authenticateUsers_eq_some {username password : Bytes} {users : List User}
    {u : User} (h : Provider.authenticateUsers L username password users = some u) :
    (∃ user ∈ users, u = { user with clientPassword := password }) ∧ u.enabled = 1 ∧
      u.username = username ∧ L.verifyProviderPassword password u.passwordHash = true := by
  induction users with
  | nil => cases h
  | cons user users ih =>
    simp only [Provider.authenticateUsers] at h
    split at h
    · obtain ⟨⟨user', hu, rfl⟩, hrest⟩ := ih h
      exact ⟨⟨user', List.mem_cons_of_mem _ hu, rfl⟩, hrest⟩
    · next hskip =>
      split at h
      · next hv =>
        obtain rfl := Option.some.inj h
        obtain ⟨he, hn⟩ : user.enabled = 1 ∧ user.username = username := by
          simpa [not_or] using hskip
        exact ⟨⟨user, List.mem_cons_self .., rfl⟩, he, hn, hv⟩
      · obtain ⟨⟨user', hu, rfl⟩, hrest⟩ := ih h
        exact ⟨⟨user', List.mem_cons_of_mem _ hu, rfl⟩, hrest⟩

theorem Provider.authenticate_eq_some {p : Provider} {username password : Bytes} {u : User}
    (h : p.authenticate L username password = some u) : Verified L p username password u := by
  rw [Provider.authenticate] at h
  split at h
  · cases h
  · next hne =>
    obtain ⟨hmem, he, hn, hv⟩ := Provider.authenticateUsers_eq_some h
    exact ⟨hmem, he, hn, (not_or.mp hne).1, hv⟩

/-- **A client is authenticated by the verifier**, for the pair it sent or the pair with `+` for
spaces. -/
theorem authenticateXtreamClient_eq_some {p : Provider} {username password : Bytes} {u : User}
    (h : authenticateXtreamClient L p username password = some u) :
    Verified L p username password u ∨
      Verified L p (plusForSpaces username) (plusForSpaces password) u := by
  rw [authenticateXtreamClient] at h
  split at h
  · next hu =>
    obtain rfl := Option.some.inj h
    exact .inl (Provider.authenticate_eq_some hu)
  · dsimp only at h
    split at h
    · exact .inr (Provider.authenticate_eq_some h)
    · cases h

/-- An authenticated user has a name. -/
theorem username_ne_nil {p : Provider} {username password : Bytes} {u : User}
    (h : authenticateXtreamClient L p username password = some u) : u.username ≠ [] := by
  rcases authenticateXtreamClient_eq_some h with hv | hv
  · rw [hv.name]
    exact hv.nonempty
  · rw [hv.name]
    exact hv.nonempty

/-- An authenticated user has the id of a user of the provider. -/
theorem id_mem {p : Provider} {username password : Bytes} {u : User}
    (h : authenticateXtreamClient L p username password = some u) :
    ∃ user ∈ p.users, user.id = u.id := by
  rcases authenticateXtreamClient_eq_some h with hv | hv
  · obtain ⟨user, hu, rfl⟩ := hv.mem
    exact ⟨user, hu, rfl⟩
  · obtain ⟨user, hu, rfl⟩ := hv.mem
    exact ⟨user, hu, rfl⟩

end IptvProxy.Xtream
