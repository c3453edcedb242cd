import IptvProxy.Lib.Program
import IptvProxy.Users.Verifier

/-!
# Migrations

`runMigrations` of `lib/db/migrations.ts`, as a program over the statements that it issues: a
statement or a batch is one command, and a run may be cut off between any two of them.

Of the schema the tables, columns, indexes and triggers are modelled that a later statement depends
on; of the rows of `iptv_providers` and `provider_users` what the migrations read or write. Where
`schema_migrations` does not exist, no version is recorded. Of `users` only the names are read.
-/

namespace IptvProxy.Users.Migration

open Effect Js

/-- The environment of the process. -/
structure Env where
  /-- `INITIAL_ADMIN_PASSWORD` -/
  initialAdminPassword : Option Text
  /-- `ADMIN_PASSWORD` -/
  adminPassword : Option Text
  /-- `INITIAL_ADMIN_USERNAME` -/
  initialAdminUsername : Option Text
  /-- `ADMIN_USERNAME` -/
  adminUsername : Option Text

/-- `first?.trim() || second?.trim() || otherwise` -/
def firstSet (first second : Option Text) (otherwise : Text) : Text :=
  let first := trim (first.getD [])
  let second := trim (second.getD [])
  if first ≠ [] then first else if second ≠ [] then second else otherwise

/-- `configuredPassword` -/
def Env.configuredPassword (env : Env) : Text :=
  firstSet env.initialAdminPassword env.adminPassword []

/-- `configuredUsername` -/
def Env.configuredUsername (env : Env) : Text :=
  firstSet env.initialAdminUsername env.adminUsername "admin".toList

/-- A row of `iptv_providers`. -/
structure Provider where
  /-- `id` -/
  id : Text
  /-- `local_username` -/
  localUsername : Text
  /-- `local_password` -/
  localPassword : Text
  /-- `is_default` -/
  isDefault : ℤ
  /-- `updated_at` -/
  updatedAt : Text
  deriving DecidableEq

/-- A row of `provider_users`. -/
structure User where
  /-- `id` -/
  id : Text
  /-- `provider_id` -/
  providerId : Text
  /-- `username` -/
  username : Text
  /-- `password` -/
  password : Text
  /-- `password_hash`; `NULL` where there is no such column -/
  passwordHash : Option Text
  /-- `enabled` -/
  enabled : ℕ
  deriving DecidableEq

/-- The database. -/
structure Db where
  /-- `schema_migrations` -/
  applied : List ℕ
  /-- the tables of the first migration exist -/
  tables : Bool
  /-- `app_settings.active_vpn_label` exists -/
  label : Bool
  /-- the indexes and triggers of the second migration exist -/
  singleDefault : Bool
  /-- `users.session_version` exists -/
  sessionVersion : Bool
  /-- `provider_users` exists -/
  userTable : Bool
  /-- `provider_users.password_hash` exists -/
  hashColumn : Bool
  /-- the triggers of the fourth migration exist -/
  triggers : Bool
  /-- `iptv_providers` -/
  providers : List Provider
  /-- `provider_users` -/
  users : List User
  /-- `initial_setup_completed` of the row of `app_settings` -/
  settings : Option Bool
  /-- the names in `users` -/
  accounts : List Text
  deriving DecidableEq

/-! ## Statements -/

/-- The statements and batches that write. -/
inductive Stmt where
  /-- `CREATE TABLE IF NOT EXISTS schema_migrations` -/
  | createMigrations
  /-- `recordMigration` -/
  | record (version : ℕ)
  /-- the batch of migration 1 -/
  | createTables
  /-- `ALTER TABLE app_settings ADD COLUMN active_vpn_label` -/
  | addLabel
  /-- `UPDATE iptv_providers SET is_default = 0` but for one row -/
  | keepOneDefault
  /-- the batch of migration 2 -/
  | createIndexes
  /-- `ALTER TABLE users ADD COLUMN session_version` -/
  | addSessionVersion
  /-- the batch of migration 3 -/
  | createProviderUsers
  /-- `INSERT INTO provider_users`, without a `password_hash` -/
  | insertUser (id providerId username password : Text)
  /-- `ALTER TABLE provider_users ADD COLUMN password_hash` -/
  | addPasswordHash
  /-- `UPDATE provider_users SET password_hash = ?, password = ''` -/
  | storeHash (id passwordHash : Text)
  /-- `UPDATE iptv_providers SET local_password = ''` -/
  | clearLocalPasswords
  /-- the batch of migration 4 -/
  | createTriggers
  /-- `INSERT INTO app_settings` -/
  | insertSettings
  /-- `INSERT INTO users` -/
  | insertAdministrator (username : Text)
  /-- `UPDATE app_settings SET initial_setup_completed = 1` -/
  | completeSetup
  /-- `INSERT INTO logs` -/
  | insertLog
  deriving DecidableEq

/-- `ORDER BY updated_at DESC, id ASC` -/
def Provider.before (p q : Provider) : Bool :=
  q.updatedAt < p.updatedAt || (p.updatedAt = q.updatedAt && p.id < q.id)

/-- The default provider that stays one. -/
def firstDefault (providers : List Provider) : Option Provider :=
  (providers.filter fun p => p.isDefault = 1).foldl (fun best p => match best with
    | none => some p
    | some q => if p.before q then some p else some q) none

/-- Two default providers. -/
def Provider.bothDefault (p q : Provider) : Prop := p.isDefault = 1 ∧ q.isDefault = 1

instance (p q : Provider) : Decidable (p.bothDefault q) :=
  inferInstanceAs (Decidable (p.isDefault = 1 ∧ q.isDefault = 1))

/-- At most one provider is the default. -/
def OneDefault (providers : List Provider) : Prop :=
  providers.Pairwise fun p q => ¬p.bothDefault q

instance (providers : List Provider) : Decidable (OneDefault providers) :=
  inferInstanceAs (Decidable (providers.Pairwise fun p q => ¬p.bothDefault q))

/-- `trim(s) = ''` of SQL -/
def blank (s : Text) : Bool := s.all (· = ' ')

/-- Whether a statement succeeds. -/
def Stmt.Admits (s : Db) : Stmt → Prop
  | createMigrations => True
  | record version => version ∉ s.applied
  | createTables => True
  | addLabel => s.tables = true ∧ s.label = false
  | keepOneDefault => s.tables = true
  | createIndexes => s.tables = true ∧ OneDefault s.providers
  | addSessionVersion => s.tables = true ∧ s.sessionVersion = false
  | createProviderUsers => True
  | insertUser id providerId username _ =>
    s.userTable = true ∧ s.triggers = false ∧ (∃ p ∈ s.providers, p.id = providerId) ∧
      ∀ r ∈ s.users, r.id ≠ id ∧ ¬(r.providerId = providerId ∧ r.username = username)
  | addPasswordHash => s.userTable = true ∧ s.hashColumn = false
  | storeHash _ passwordHash =>
    s.userTable = true ∧ s.hashColumn = true ∧ (s.triggers = true → blank passwordHash = false)
  | clearLocalPasswords => s.tables = true
  | createTriggers => s.tables = true ∧ s.userTable = true ∧ s.hashColumn = true
  | insertSettings => s.tables = true ∧ s.label = true ∧ s.settings = none
  | insertAdministrator username =>
    s.tables = true ∧ s.sessionVersion = true ∧ s.accounts.contains username = false
  | completeSetup => s.tables = true
  | insertLog => s.tables = true

instance (s : Db) (st : Stmt) : Decidable (st.Admits s) := by
  cases st <;> unfold Stmt.Admits <;> infer_instance

/-- What a statement does. -/
def Stmt.apply (s : Db) : Stmt → Db
  | createMigrations => s
  | record version => { s with applied := s.applied ++ [version] }
  | createTables => { s with tables := true }
  | addLabel => { s with label := true }
  | keepOneDefault =>
    { s with providers := s.providers.map fun p =>
        if p.isDefault = 1 ∧ (firstDefault s.providers).map Provider.id ≠ some p.id then
          { p with isDefault := 0 }
        else p }
  | createIndexes => { s with singleDefault := true }
  | addSessionVersion => { s with sessionVersion := true }
  | createProviderUsers => { s with userTable := true }
  | insertUser id providerId username password =>
    { s with users := s.users ++ [⟨id, providerId, username, password, none, 1⟩] }
  | addPasswordHash => { s with hashColumn := true }
  | storeHash id passwordHash =>
    { s with users := s.users.map fun r =>
        if r.id = id then { r with passwordHash := some passwordHash, password := [] } else r }
  | clearLocalPasswords =>
    { s with providers := s.providers.map fun p => { p with localPassword := [] } }
  | createTriggers => { s with triggers := true }
  | insertSettings => { s with settings := some false }
  | insertAdministrator username => { s with accounts := s.accounts ++ [username] }
  | completeSetup => { s with settings := s.settings.map fun _ => true }
  | insertLog => s

/-- The queries. -/
inductive Query where
  /-- `migrationApplied` -/
  | applied (version : ℕ)
  /-- `columnExists(db, 'app_settings', 'active_vpn_label')` -/
  | hasLabel
  /-- `columnExists(db, 'users', 'session_version')` -/
  | hasSessionVersion
  /-- `columnExists(db, 'provider_users', 'password_hash')` -/
  | hasPasswordHash
  /-- the rows of `iptv_providers` -/
  | providers
  /-- is there a row of `provider_users`? -/
  | hasUser (providerId username : Text)
  /-- the rows of `provider_users` -/
  | users
  /-- is there a row of `app_settings`? -/
  | hasSettings
  /-- the number of rows of `users` -/
  | accounts
  deriving DecidableEq

/-- Their results. -/
@[reducible] def Query.Answer : Query → Type
  | providers => List Provider
  | users => List User
  | accounts => ℕ
  | _ => Bool

instance : ∀ q : Query, DecidableEq q.Answer
  | .providers => inferInstanceAs (DecidableEq (List Provider))
  | .users => inferInstanceAs (DecidableEq (List User))
  | .accounts => inferInstanceAs (DecidableEq ℕ)
  | .applied _ | .hasLabel | .hasSessionVersion | .hasPasswordHash | .hasUser _ _
  | .hasSettings => inferInstanceAs (DecidableEq Bool)

/-- What a query throws or finds. -/
def Query.eval (s : Db) : (q : Query) → Except String q.Answer
  | applied version => .ok (decide (version ∈ s.applied))
  | hasLabel => .ok s.label
  | hasSessionVersion => .ok s.sessionVersion
  | hasPasswordHash => .ok s.hashColumn
  | providers => if s.tables then .ok s.providers else .error "no such table"
  | hasUser providerId username =>
    if s.userTable then .ok (s.users.any fun r => r.providerId = providerId ∧ r.username = username)
    else .error "no such table"
  | users => if s.userTable ∧ s.hashColumn then .ok s.users else .error "no such column"
  | hasSettings => if s.tables then .ok s.settings.isSome else .error "no such table"
  | accounts => if s.tables then .ok s.accounts.length else .error "no such table"

/-- The commands. -/
inductive Cmd where
  /-- a statement -/
  | exec (st : Stmt)
  /-- a query -/
  | ask (q : Query)
  /-- `crypto.randomUUID()` -/
  | randomUUID
  /-- `crypto.randomBytes(SALT_BYTES)` -/
  | randomBytes

/-- Their answers. -/
@[reducible] def Cmd.Answer : Cmd → Type
  | exec _ => Except String Unit
  | ask q => Except String q.Answer
  | randomUUID => Text
  | randomBytes => { s : Bytes // s.length = saltBytes }

/-- What a command does; `none` if the answer is not possible. An identifier that is drawn is a new
one. -/
def effect (s : Db) : (c : Cmd) → c.Answer → Option Db
  | .exec st, .ok _ => if st.Admits s then some (st.apply s) else none
  | .exec st, .error _ => if st.Admits s then none else some s
  | .ask q, x => if x = q.eval s then some s else none
  | .randomUUID, id => if ∃ r ∈ s.users, r.id = (id : Text) then none else some s
  | .randomBytes, _ => some s

/-! ## The program -/

/-- What throws has a message. -/
abbrev Op := Program Cmd Cmd.Answer String

/-- An answer that is an error is thrown. -/
def orThrow {α : Type} : Except String α → Op α
  | .ok a => pure a
  | .error message => throw message

/-- A statement. -/
def exec (st : Stmt) : Op Unit := do
  orThrow (← Program.perform (.exec st))

/-- A query. -/
def ask (q : Query) : Op q.Answer := do
  orThrow (← Program.perform (.ask q))

/-- A column or a row is added if there is none. -/
def execUnless (found : Bool) (st : Stmt) : Op Unit := if found then pure () else exec st

/-- Migration 1. -/
def migrate1 : Op Unit := do
  exec .createTables
  exec (.record 1)

/-- Migration 2. -/
def migrate2 : Op Unit := do
  let found ← ask .hasLabel
  execUnless found .addLabel
  exec .keepOneDefault
  exec .createIndexes
  exec (.record 2)

/-- One round of the loop of migration 3. -/
def insertLegacy (p : Provider) : Op Unit :=
  let username := trim p.localUsername
  if username = [] ∨ p.localPassword = [] then pure ()
  else do
    let existing ← ask (.hasUser p.id username)
    if existing then pure ()
    else do
      let id ← Program.perform Cmd.randomUUID
      exec (.insertUser id p.id username p.localPassword)

/-- The loop of migration 3. -/
def insertLegacies : List Provider → Op Unit
  | [] => pure ()
  | p :: rest => do
    insertLegacy p
    insertLegacies rest

/-- Migration 3. -/
def migrate3 : Op Unit := do
  let found ← ask .hasSessionVersion
  execUnless found .addSessionVersion
  exec .createProviderUsers
  let rows ← ask .providers
  insertLegacies rows
  exec (.record 3)

variable (pbkdf2 : Text → Bytes → ℕ → ℕ → Bytes)

/-- One round of the loop of migration 4. -/
def hashUser (row : User) : Op Unit :=
  let existingHash := row.passwordHash.getD []
  if isProviderPasswordHash existingHash then exec (.storeHash row.id existingHash)
  else if row.password = [] then pure ()
  else do
    let salt ← Program.perform Cmd.randomBytes
    exec (.storeHash row.id (hashProviderPassword pbkdf2 row.password salt.1))

/-- The loop of migration 4. -/
def hashUsers : List User → Op Unit
  | [] => pure ()
  | row :: rest => do
    hashUser pbkdf2 row
    hashUsers rest

/-- Migration 4. -/
def migrate4 : Op Unit := do
  let found ← ask .hasPasswordHash
  execUnless found .addPasswordHash
  let rows ← ask .users
  hashUsers pbkdf2 rows
  exec .clearLocalPasswords
  exec .createTriggers
  exec (.record 4)

/-- A migration that has not been recorded. -/
def migration (version : ℕ) (m : Op Unit) : Op Unit := do
  let applied ← ask (.applied version)
  if applied then pure () else m

variable (env : Env)

/-- The first administrator, if the environment has a password for it. -/
def seedAdministrator : Op Unit :=
  if env.configuredPassword = [] then pure ()
  else if length env.configuredPassword < 8 then
    throw "INITIAL_ADMIN_PASSWORD must contain at least 8 characters when provided."
  else do
    exec (.insertAdministrator env.configuredUsername)
    exec .completeSetup
    exec .insertLog

/-- What follows the migrations. -/
def finishSetup : Op Unit := do
  let found ← ask .hasSettings
  execUnless found .insertSettings
  let count ← ask .accounts
  if count = 0 then seedAdministrator env else exec .completeSetup

/-- `runMigrations` -/
def runMigrations : Op Unit := do
  exec .createMigrations
  migration 1 migrate1
  migration 2 migrate2
  migration 3 migrate3
  migration 4 (migrate4 pbkdf2)
  finishSetup env

end IptvProxy.Users.Migration
