import IptvProxy.Lib.Interrupted
import IptvProxy.Users.Migration

/-!
# Interrupted migrations

Runs of `runMigrations` that are cut off between two statements, any number of them, and then one
that is not. `Kept` holds at every statement: the schema fits the versions that are recorded, every
user is there with its password or a verifier of it, as long as migration 3 is not recorded the
credentials are there that it has to take over, and every other user comes from such credentials.
-/

namespace IptvProxy.Users.Migration

open Effect Js

variable (pbkdf2 : Text → Bytes → ℕ → ℕ → Bytes) (env : Env)

/-- No password is left in plain text. -/
structure Cleared (providers : List Provider) (users : List User) : Prop where
  /-- of a user -/
  users : ∀ r ∈ users, r.password = []
  /-- of a provider -/
  providers : ∀ p ∈ providers, p.localPassword = []

/-- A database that a version of the program may have left. -/
structure Wf (s : Db) : Prop where
  /-- the versions are recorded in their order -/
  order2 : 2 ∈ s.applied → 1 ∈ s.applied
  /-- the same -/
  order3 : 3 ∈ s.applied → 2 ∈ s.applied
  /-- the same -/
  order4 : 4 ∈ s.applied → 3 ∈ s.applied
  /-- migration 1 -/
  tables : 1 ∈ s.applied → s.tables = true
  /-- migration 2 -/
  label : 2 ∈ s.applied → s.label = true
  /-- migration 2, by its index -/
  oneDefault : 2 ∈ s.applied → OneDefault s.providers
  /-- migration 3 -/
  sessionVersion : 3 ∈ s.applied → s.sessionVersion = true
  /-- migration 3 -/
  userTable : 3 ∈ s.applied → s.userTable = true
  /-- migration 4 comes after it -/
  triggers : s.triggers = true → 3 ∈ s.applied
  /-- migration 4 -/
  cleared : 4 ∈ s.applied → Cleared s.providers s.users
  /-- the primary key of `iptv_providers` -/
  providerIds : (s.providers.map Provider.id).Nodup
  /-- the primary key of `provider_users` -/
  userIds : (s.users.map User.id).Nodup

/-- A user has a valid verifier. -/
def User.verified (r : User) : Bool := isProviderPasswordHash (r.passwordHash.getD [])

/-- User `r'` is `r`, with the same password or verifier, or with a verifier of the password. -/
structure User.Keeps (r r' : User) : Prop where
  /-- `id` -/
  id : r'.id = r.id
  /-- `provider_id` -/
  providerId : r'.providerId = r.providerId
  /-- `username` -/
  username : r'.username = r.username
  /-- `enabled` -/
  enabled : r'.enabled = r.enabled
  /-- the password -/
  secret : r'.password = r.password ∧ r'.passwordHash = r.passwordHash ∨
    r'.password = [] ∧ r'.verified = true ∧ (r.verified = true → r'.passwordHash = r.passwordHash) ∧
      (r.verified = false →
        verifyProviderPassword pbkdf2 r.password (r'.passwordHash.getD []) = true)

/-- A provider has credentials for migration 3. -/
def Provider.Legacy (p : Provider) : Prop := trim p.localUsername ≠ [] ∧ p.localPassword ≠ []

/-- It has been taken over. -/
def HasRow (s : Db) (p : Provider) : Prop :=
  ∃ r ∈ s.users, r.providerId = p.id ∧ r.username = trim p.localUsername

/-- A provider has the credentials that another row has. -/
def Provider.SameLogin (p q : Provider) : Prop :=
  q.id = p.id ∧ q.localUsername = p.localUsername ∧ q.localPassword = p.localPassword

/-- The row that migration 3 makes of a provider's credentials. -/
def Provider.login (p : Provider) (id : Text) : User :=
  ⟨id, p.id, trim p.localUsername, p.localPassword, none, 1⟩

/-- The invariant, where `db` is the database before the first run. -/
structure Kept (db s : Db) : Prop where
  /-- the schema and the constraints -/
  wf : Wf s
  /-- a version stays recorded -/
  recorded : 3 ∈ db.applied → 3 ∈ s.applied
  /-- the users -/
  users : ∀ r ∈ db.users, ∃ r' ∈ s.users, r.Keeps pbkdf2 r'
  /-- the credentials -/
  legacy : 3 ∉ db.applied → ∀ p ∈ db.providers, p.Legacy →
    HasRow s p ∨ 3 ∉ s.applied ∧ ∃ q ∈ s.providers, p.SameLogin q
  /-- migration 3 sees no others -/
  logins : 3 ∉ s.applied → ∀ q ∈ s.providers, ∃ p ∈ db.providers, p.SameLogin q
  /-- there is no other user -/
  origin : ∀ r' ∈ s.users, (∃ r ∈ db.users, r.Keeps pbkdf2 r') ∨
    ∃ p ∈ db.providers, p.Legacy ∧ (p.login r'.id).Keeps pbkdf2 r'

/-- What the migrations are for. -/
structure Migrated (db s : Db) : Prop where
  /-- a verifier stays, and a password is accepted by its new verifier -/
  users : ∀ r ∈ db.users, ∃ r' ∈ s.users, r'.id = r.id ∧ r'.providerId = r.providerId ∧
    r'.username = r.username ∧ r'.enabled = r.enabled ∧
    (r.verified = true → r'.passwordHash = r.passwordHash) ∧
    (r.verified = false → r.password ≠ [] →
      ∃ h, r'.passwordHash = some h ∧ verifyProviderPassword pbkdf2 r.password h = true)
  /-- credentials are taken over, with their password, unless the login was there -/
  legacy : 3 ∉ db.applied → ∀ p ∈ db.providers, p.Legacy →
    ∃ r' ∈ s.users, r'.providerId = p.id ∧ r'.username = trim p.localUsername ∧
      ((∃ r ∈ db.users, r.id = r'.id ∧ r.providerId = p.id ∧ r.username = trim p.localUsername) ∨
        r'.enabled = 1 ∧
          ∃ h, r'.passwordHash = some h ∧ verifyProviderPassword pbkdf2 p.localPassword h = true)
  /-- no password is left in plain text -/
  cleared : Cleared s.providers s.users
  /-- at most one provider is the default -/
  oneDefault : OneDefault s.providers

variable {pbkdf2} {env} {db s s' : Db} {r r' r'' : User} {p q : Provider} {st : Stmt}

/-! ## Single statements -/

theorem not_verified_none : isProviderPasswordHash [] = false := by decide +kernel

theorem User.Keeps.refl (r : User) : r.Keeps pbkdf2 r :=
  ⟨rfl, rfl, rfl, rfl, .inl ⟨rfl, rfl⟩⟩

theorem User.Keeps.trans (h : r.Keeps pbkdf2 r') (h' : r'.Keeps pbkdf2 r'') :
    r.Keeps pbkdf2 r'' where
  id := h'.id.trans h.id
  providerId := h'.providerId.trans h.providerId
  username := h'.username.trans h.username
  enabled := h'.enabled.trans h.enabled
  secret := by
    rcases h.secret with ⟨hpassword, hhash⟩ | ⟨hpassword, hverified, hkept, hnew⟩
    · have hverified : r'.verified = r.verified := by rw [User.verified, User.verified, hhash]
      rw [← hpassword, ← hhash, ← hverified]
      exact h'.secret
    · refine .inr ?_
      rcases h'.secret with ⟨hpassword', hhash'⟩ | ⟨hpassword', hverified', hkept', -⟩
      · have hsame : r''.verified = r'.verified := by rw [User.verified, User.verified, hhash']
        exact ⟨hpassword'.trans hpassword, hsame.trans hverified,
          fun hr => hhash'.trans (hkept hr), fun hr => by rw [hhash']; exact hnew hr⟩
      · have hhash' := hkept' hverified
        exact ⟨hpassword', hverified', fun hr => hhash'.trans (hkept hr),
          fun hr => by rw [hhash']; exact hnew hr⟩

theorem Provider.SameLogin.trans {p₁ p₂ p₃ : Provider} (h : p₁.SameLogin p₂)
    (h' : p₂.SameLogin p₃) : p₁.SameLogin p₃ :=
  ⟨h'.1.trans h.1, h'.2.1.trans h.2.1, h'.2.2.trans h.2.2⟩

theorem Provider.SameLogin.login_eq (h : p.SameLogin q) (id : Text) : q.login id = p.login id := by
  rw [login, login, h.1, h.2.1, h.2.2]

theorem Provider.SameLogin.legacy (h : p.SameLogin q) : q.Legacy ↔ p.Legacy := by
  rw [Legacy, Legacy, h.2.1, h.2.2]

/-- A statement that keeps the users, and the credentials while they are needed, and adds none. -/
theorem Kept.mono (h : Kept pbkdf2 db s) (hwf : Wf s') (happlied : 3 ∈ s'.applied ↔ 3 ∈ s.applied)
    (husers : ∀ r ∈ s.users, ∃ r' ∈ s'.users, r.Keeps pbkdf2 r')
    (hproviders : 3 ∉ s.applied → ∀ p ∈ s.providers, ∃ q ∈ s'.providers, p.SameLogin q)
    (hold : 3 ∉ s.applied → ∀ q ∈ s'.providers, ∃ p ∈ s.providers, p.SameLogin q)
    (horigin : ∀ r' ∈ s'.users, ∃ r ∈ s.users, r.Keeps pbkdf2 r') : Kept pbkdf2 db s' where
  wf := hwf
  recorded hdb := happlied.mpr (h.recorded hdb)
  users r hr := by
    obtain ⟨r', hr', hkeeps⟩ := h.users r hr
    obtain ⟨r'', hr'', hkeeps'⟩ := husers r' hr'
    exact ⟨r'', hr'', hkeeps.trans hkeeps'⟩
  legacy hdb p hp hlegacy := by
    rcases h.legacy hdb p hp hlegacy with ⟨r, hr, hprovider, hname⟩ | ⟨hnot, q, hq, hlogin⟩
    · obtain ⟨r', hr', hkeeps⟩ := husers r hr
      exact .inl ⟨r', hr', hkeeps.providerId.trans hprovider, hkeeps.username.trans hname⟩
    · obtain ⟨q', hq', hlogin'⟩ := hproviders hnot q hq
      exact .inr ⟨fun h3 => hnot (happlied.mp h3), q', hq', hlogin.trans hlogin'⟩
  logins hnot q' hq' := by
    rw [happlied] at hnot
    obtain ⟨q, hq, hlogin'⟩ := hold hnot q' hq'
    obtain ⟨p, hp, hlogin⟩ := h.logins hnot q hq
    exact ⟨p, hp, hlogin.trans hlogin'⟩
  origin r'' hr'' := by
    obtain ⟨r', hr', hkeeps'⟩ := horigin r'' hr''
    rcases h.origin r' hr' with ⟨r, hr, hkeeps⟩ | ⟨p, hp, hlegacy, hkeeps⟩
    · exact .inl ⟨r, hr, hkeeps.trans hkeeps'⟩
    · refine .inr ⟨p, hp, hlegacy, ?_⟩
      rw [hkeeps'.id]
      exact hkeeps.trans hkeeps'

/-- A statement that changes neither users nor providers. -/
theorem Kept.mono_schema (h : Kept pbkdf2 db s) (hwf : Wf s')
    (happlied : 3 ∈ s'.applied ↔ 3 ∈ s.applied)
    (husers : s'.users = s.users) (hproviders : s'.providers = s.providers) :
    Kept pbkdf2 db s' :=
  h.mono hwf happlied (fun r hr => ⟨r, by rw [husers]; exact hr, .refl r⟩)
    (fun _ p hp => ⟨p, by rw [hproviders]; exact hp, rfl, rfl, rfl⟩)
    (fun _ p hp => ⟨p, by rw [← hproviders]; exact hp, rfl, rfl, rfl⟩)
    fun r hr => ⟨r, by rw [← husers]; exact hr, .refl r⟩

theorem mem_record {n v : ℕ} : n ∈ (Stmt.apply s (.record v)).applied ↔ n ∈ s.applied ∨ n = v := by
  simp [Stmt.apply]

/-- A blank text is no verifier. -/
theorem blank_eq_false {h : Text} (hh : isProviderPasswordHash h = true) : blank h = false := by
  by_contra hblank
  rw [Bool.not_eq_false, blank, List.all_eq_true] at hblank
  have hsplit : h.splitOn '$' = [h] := by
    have hself : ['$'].intercalate [h] = h := by simp [List.intercalate]
    rw [← hself]
    refine (List.splitOn_intercalate _ ?_ (List.cons_ne_nil _ _)).trans (by rw [hself])
    simp only [List.forall_mem_cons]
    refine ⟨fun hmem => ?_, nofun⟩
    exact absurd (of_decide_eq_true (hblank _ hmem)) (by decide)
  rw [isProviderPasswordHash, hsplit] at hh
  cases hh

theorem map_id_of_same {α : Type} {f : α → α} {key : α → Text} (hf : ∀ a, key (f a) = key a)
    (l : List α) : (l.map f).map key = l.map key := by
  rw [List.map_map]
  exact List.map_congr_left fun a _ => hf a

section Providers

theorem keepOneDefault_providers (s : Db) : (Stmt.apply s .keepOneDefault).providers =
    s.providers.map fun p =>
      if p.isDefault = 1 ∧ (firstDefault s.providers).map Provider.id ≠ some p.id then
        { p with isDefault := 0 }
      else p := rfl

/-- After the update at most one row has `is_default = 1`. -/
theorem oneDefault_keepOneDefault (h : (s.providers.map Provider.id).Nodup) :
    OneDefault (Stmt.apply s .keepOneDefault).providers := by
  rw [keepOneDefault_providers, OneDefault, List.pairwise_map]
  have hne : s.providers.Pairwise fun p q => p.id ≠ q.id := List.pairwise_map.mp h
  refine hne.imp fun {p q} hpq => ?_
  rintro ⟨hp, hq⟩
  -- a row that stays the default is the first one
  have hfirst : ∀ p : Provider, (if p.isDefault = 1 ∧
      (firstDefault s.providers).map Provider.id ≠ some p.id then { p with isDefault := 0 }
      else p).isDefault = 1 → (firstDefault s.providers).map Provider.id = some p.id := by
    intro p hp
    split at hp
    · cases hp
    · next hnot => exact not_not.mp fun hid => hnot ⟨hp, hid⟩
  exact hpq (Option.some.inj ((hfirst p hp).symm.trans (hfirst q hq)))

theorem sameLogin_keepOneDefault (hp : p ∈ s.providers) :
    ∃ q ∈ (Stmt.apply s .keepOneDefault).providers, p.SameLogin q := by
  rw [keepOneDefault_providers]
  refine ⟨_, List.mem_map_of_mem hp, ?_⟩
  split <;> exact ⟨rfl, rfl, rfl⟩

theorem sameLogin_of_keepOneDefault (hq : q ∈ (Stmt.apply s .keepOneDefault).providers) :
    ∃ p ∈ s.providers, p.SameLogin q := by
  rw [keepOneDefault_providers] at hq
  obtain ⟨p, hp, rfl⟩ := List.mem_map.mp hq
  refine ⟨p, hp, ?_⟩
  split <;> exact ⟨rfl, rfl, rfl⟩

end Providers

/-! ## Rules for the statements -/

section Rules

variable {I : Db → Prop} {α : Type} {R : String → Db → Prop}

theorem follows_exec {Q : Unit → Db → Prop} (hI : I s) (hadmits : st.Admits s)
    (hQ : Q () (st.apply s)) : Follows (.guarded effect I) (exec st) s Q R := by
  refine follows_bind.mpr ⟨hI, ?_⟩
  rintro (message | ⟨⟩) s' hs'
  · simp [Protocol.guarded, effect, hadmits] at hs'
  · simp only [Protocol.guarded, effect, hadmits, if_true, Option.some.injEq] at hs'
    subst hs'
    exact hQ

theorem follows_ask {query : Query} {a : query.Answer} {Q : query.Answer → Db → Prop} (hI : I s)
    (heval : query.eval s = .ok a) (hQ : Q a s) :
    Follows (.guarded effect I) (ask query) s Q R := by
  refine follows_bind.mpr ⟨hI, fun x s' hs' => ?_⟩
  simp only [Protocol.guarded, effect, heval] at hs'
  split at hs'
  · next hx =>
    subst hx
    obtain rfl := Option.some.inj hs'
    exact hQ
  · cases hs'

theorem follows_execUnless {found : Bool} {Q : Unit → Db → Prop} (hI : I s)
    (hfound : found = true → Q () s) (hadmits : found = false → st.Admits s)
    (hQ : found = false → Q () (st.apply s)) :
    Follows (.guarded effect I) (execUnless found st) s Q R := by
  unfold execUnless
  split
  · next h => exact hfound h
  · next h =>
    rw [Bool.not_eq_true] at h
    exact follows_exec hI (hadmits h) (hQ h)

end Rules

/-! ## The migrations -/

/-- What is recorded has been done. -/
theorem Wf.record {v : ℕ} (h : Wf s) (h1 : v = 1 → s.tables = true)
    (h2 : v = 2 → 1 ∈ s.applied ∧ s.label = true ∧ OneDefault s.providers)
    (h3 : v = 3 → 2 ∈ s.applied ∧ s.sessionVersion = true ∧ s.userTable = true)
    (h4 : v = 4 → 3 ∈ s.applied ∧ Cleared s.providers s.users) :
    Wf (Stmt.apply s (.record v)) where
  order2 hm := mem_record.mpr <| (mem_record.mp hm).elim (fun hm => .inl (h.order2 hm))
    fun hv => .inl (h2 hv.symm).1
  order3 hm := mem_record.mpr <| (mem_record.mp hm).elim (fun hm => .inl (h.order3 hm))
    fun hv => .inl (h3 hv.symm).1
  order4 hm := mem_record.mpr <| (mem_record.mp hm).elim (fun hm => .inl (h.order4 hm))
    fun hv => .inl (h4 hv.symm).1
  tables hm := (mem_record.mp hm).elim h.tables fun hv => h1 hv.symm
  label hm := (mem_record.mp hm).elim h.label fun hv => (h2 hv.symm).2.1
  oneDefault hm := (mem_record.mp hm).elim h.oneDefault fun hv => (h2 hv.symm).2.2
  sessionVersion hm := (mem_record.mp hm).elim h.sessionVersion fun hv => (h3 hv.symm).2.1
  userTable hm := (mem_record.mp hm).elim h.userTable fun hv => (h3 hv.symm).2.2
  triggers ht := mem_record.mpr (.inl (h.triggers ht))
  cleared hm := (mem_record.mp hm).elim h.cleared fun hv => (h4 hv.symm).2
  providerIds := h.providerIds
  userIds := h.userIds

/-- Another version than 3 is recorded. -/
theorem Kept.record {v : ℕ} (h : Kept pbkdf2 db s) (hv : v ≠ 3)
    (hwf : Wf (Stmt.apply s (.record v))) : Kept pbkdf2 db (Stmt.apply s (.record v)) :=
  h.mono_schema hwf ⟨fun hm => (mem_record.mp hm).resolve_right (Ne.symm hv),
    fun hm => mem_record.mpr (.inl hm)⟩ rfl rfl

variable {R : String → Db → Prop}

theorem follows_migrate1 (h : Kept pbkdf2 db s) (h1 : 1 ∉ s.applied) :
    Follows (.guarded effect (Kept pbkdf2 db)) migrate1 s
      (fun _ s' => Kept pbkdf2 db s' ∧ 1 ∈ s'.applied) R := by
  have hwf : Wf (Stmt.apply s .createTables) := { h.wf with tables := fun _ => rfl }
  have hkept := h.mono_schema hwf .rfl rfl rfl
  refine follows_bind.mpr (follows_exec h trivial (follows_exec hkept h1 ?_))
  exact ⟨hkept.record (by decide) (hwf.record (fun _ => rfl) nofun nofun nofun),
    mem_record.mpr (.inr rfl)⟩

theorem follows_migrate2 (h : Kept pbkdf2 db s) (h1 : 1 ∈ s.applied) (h2 : 2 ∉ s.applied) :
    Follows (.guarded effect (Kept pbkdf2 db)) migrate2 s
      (fun _ s' => Kept pbkdf2 db s' ∧ 2 ∈ s'.applied) R := by
  have hlabel : Follows (.guarded effect (Kept pbkdf2 db)) (execUnless s.label .addLabel) s
      (fun _ s' => Kept pbkdf2 db s' ∧ s'.applied = s.applied ∧ s'.label = true) R := by
    refine follows_execUnless h (fun hfound => ⟨h, rfl, hfound⟩)
      (fun hfound => ⟨h.wf.tables h1, hfound⟩) fun _ => ⟨?_, rfl, rfl⟩
    exact h.mono_schema { h.wf with label := fun _ => rfl } .rfl rfl rfl
  refine follows_bind.mpr (follows_ask h rfl (hlabel.andThen ?_))
  rintro - t ⟨ht, happlied, hlabel⟩
  rw [← happlied] at h1 h2
  have h3 : 3 ∉ t.applied := fun h3 => h2 (ht.wf.order3 h3)
  have hone := oneDefault_keepOneDefault ht.wf.providerIds
  have hids : ((Stmt.apply t .keepOneDefault).providers.map Provider.id).Nodup := by
    rw [keepOneDefault_providers, map_id_of_same fun p => by split <;> rfl]
    exact ht.wf.providerIds
  have hwf : Wf (Stmt.apply t .keepOneDefault) :=
    { ht.wf with
      oneDefault := fun _ => hone
      cleared := fun h4 => absurd (ht.wf.order4 h4) h3
      providerIds := hids }
  have hkept : Kept pbkdf2 db (Stmt.apply t .keepOneDefault) :=
    ht.mono hwf .rfl (fun r hr => ⟨r, hr, .refl r⟩) (fun _ _ hp => sameLogin_keepOneDefault hp)
      (fun _ _ hq => sameLogin_of_keepOneDefault hq) fun r hr => ⟨r, hr, .refl r⟩
  have htables : t.tables = true := ht.wf.tables h1
  have hwf' : Wf (Stmt.apply (Stmt.apply t .keepOneDefault) .createIndexes) := { hwf with }
  have hkept' := hkept.mono_schema hwf' .rfl rfl rfl
  refine follows_bind.mpr (follows_exec ht htables (follows_bind.mpr ?_))
  refine follows_exec hkept ⟨htables, hone⟩ (follows_exec hkept' h2 ?_)
  exact ⟨hkept'.record (by decide) (hwf'.record nofun (fun _ => ⟨h1, hlabel, hone⟩) nofun nofun),
    mem_record.mpr (.inr rfl)⟩

/-! ### Migration 3 -/

/-- In the loop of migration 3, with these rows of `iptv_providers`. -/
structure Inserting (pbkdf2 : Text → Bytes → ℕ → ℕ → Bytes) (db : Db) (rows : List Provider)
    (s : Db) : Prop where
  /-- the invariant -/
  kept : Kept pbkdf2 db s
  /-- migration 2 is recorded -/
  before : 2 ∈ s.applied
  /-- migration 3 is not -/
  pending : 3 ∉ s.applied
  /-- its column is there -/
  sessionVersion : s.sessionVersion = true
  /-- its table is there -/
  userTable : s.userTable = true
  /-- the rows -/
  providers : s.providers = rows

theorem follows_insertLegacy {rows : List Provider} (h : Inserting pbkdf2 db rows s)
    (hp : p ∈ rows) : Follows (.guarded effect (Kept pbkdf2 db)) (insertLegacy p) s
      (fun _ s' => Inserting pbkdf2 db rows s' ∧ (∀ q, HasRow s q → HasRow s' q) ∧
        (p.Legacy → HasRow s' p)) R := by
  rw [insertLegacy]
  split
  · next hempty => exact ⟨h, fun _ => id, fun hl => absurd hempty (not_or.mpr hl)⟩
  next hnonempty =>
  have heval : Query.eval s (.hasUser p.id (trim p.localUsername)) = .ok
      (s.users.any fun r => r.providerId = p.id ∧ r.username = trim p.localUsername) := by
    rw [Query.eval, if_pos h.userTable]
  refine follows_bind.mpr (follows_ask h.kept heval ?_)
  split
  · next hexisting =>
    obtain ⟨r, hr, hrow⟩ := List.any_eq_true.mp hexisting
    exact ⟨h, fun _ => id, fun _ => ⟨r, hr, of_decide_eq_true hrow⟩⟩
  next hexisting =>
  refine follows_bind.mpr ⟨h.kept, fun id s' hs' => ?_⟩
  simp only [Protocol.guarded, effect] at hs'
  split at hs'
  · cases hs'
  next hfresh =>
  obtain rfl := Option.some.inj hs'
  have htriggers : s.triggers = false := by
    rw [← Bool.not_eq_true]
    exact fun ht => h.pending (h.kept.wf.triggers ht)
  have hadmits : Stmt.Admits s (.insertUser id p.id (trim p.localUsername) p.localPassword) := by
    refine ⟨h.userTable, htriggers, ⟨p, by rw [h.providers]; exact hp, rfl⟩, fun r hr => ?_⟩
    refine ⟨fun hid => hfresh ⟨r, hr, hid⟩, fun hrow => hexisting ?_⟩
    exact List.any_eq_true.mpr ⟨r, hr, decide_eq_true hrow⟩
  have hwf : Wf (Stmt.apply s (.insertUser id p.id (trim p.localUsername) p.localPassword)) :=
    { h.kept.wf with
      cleared := fun h4 => absurd (h.kept.wf.order4 h4) h.pending
      userIds := by
        change ((s.users ++ [_]).map User.id).Nodup
        rw [List.map_append, List.nodup_append]
        refine ⟨h.kept.wf.userIds, List.nodup_singleton _, fun x hx y hy => ?_⟩
        obtain ⟨r, hr, rfl⟩ := List.mem_map.mp hx
        obtain rfl := List.mem_singleton.mp hy
        exact fun hid => hfresh ⟨r, hr, hid⟩ }
  have hgrows : ∀ q, HasRow s q →
      HasRow (Stmt.apply s (.insertUser id p.id (trim p.localUsername) p.localPassword)) q := by
    rintro q ⟨r, hr, hrow⟩
    exact ⟨r, List.mem_append_left _ hr, hrow⟩
  refine follows_exec h.kept hadmits
    ⟨⟨?_, h.before, h.pending, h.sessionVersion, h.userTable, h.providers⟩, hgrows, ?_⟩
  · -- the new row has the credentials of a provider of the first database
    have horigin : ∃ q ∈ db.providers, q.Legacy ∧ q.login id = p.login id := by
      obtain ⟨q, hq, hlogin⟩ := h.kept.logins h.pending p (by rw [h.providers]; exact hp)
      exact ⟨q, hq, hlogin.legacy.mp (not_or.mp hnonempty), (hlogin.login_eq id).symm⟩
    refine ⟨hwf, h.kept.recorded, fun r hr => ?_, fun hdb q hq hlegacy => ?_, h.kept.logins,
      fun r hr => ?_⟩
    · obtain ⟨r', hr', hkeeps⟩ := h.kept.users r hr
      exact ⟨r', List.mem_append_left _ hr', hkeeps⟩
    · exact (h.kept.legacy hdb q hq hlegacy).imp (hgrows q) fun hrest => hrest
    · rcases List.mem_append.mp hr with hr | hr
      · exact h.kept.origin r hr
      · obtain rfl := List.mem_singleton.mp hr
        obtain ⟨q, hq, hlegacy, hlogin⟩ := horigin
        refine .inr ⟨q, hq, hlegacy, ?_⟩
        rw [hlogin]
        exact .refl _
  · exact fun _ => ⟨_, List.mem_append_right _ (List.mem_singleton_self _), rfl, rfl⟩

theorem follows_insertLegacies {rows : List Provider} (todo : List Provider)
    (h : Inserting pbkdf2 db rows s) (htodo : ∀ p ∈ todo, p ∈ rows) :
    Follows (.guarded effect (Kept pbkdf2 db)) (insertLegacies todo) s
      (fun _ s' => Inserting pbkdf2 db rows s' ∧ (∀ q, HasRow s q → HasRow s' q) ∧
        ∀ p ∈ todo, p.Legacy → HasRow s' p) R := by
  induction todo generalizing s with
  | nil => exact ⟨h, fun _ => id, nofun⟩
  | cons p todo ih =>
    refine (follows_insertLegacy h (htodo p (List.mem_cons_self ..))).andThen ?_
    rintro - t ⟨ht, hgrows, hp⟩
    refine (ih ht fun q hq => htodo q (List.mem_cons_of_mem _ hq)).mono ?_ fun _ _ => id
    rintro - u ⟨hu, hgrows', hall⟩
    refine ⟨hu, fun q hq => hgrows' q (hgrows q hq), ?_⟩
    exact List.forall_mem_cons.mpr ⟨fun hl => hgrows' p (hp hl), hall⟩

theorem follows_migrate3 (h : Kept pbkdf2 db s) (h2 : 2 ∈ s.applied) (h3 : 3 ∉ s.applied) :
    Follows (.guarded effect (Kept pbkdf2 db)) migrate3 s
      (fun _ s' => Kept pbkdf2 db s' ∧ 3 ∈ s'.applied) R := by
  have htables : s.tables = true := h.wf.tables (h.wf.order2 h2)
  have hcolumn : Follows (.guarded effect (Kept pbkdf2 db))
      (execUnless s.sessionVersion .addSessionVersion) s
      (fun _ s' => Kept pbkdf2 db s' ∧ s'.applied = s.applied ∧ s'.tables = true ∧
        s'.sessionVersion = true) R := by
    refine follows_execUnless h (fun hfound => ⟨h, rfl, htables, hfound⟩)
      (fun hfound => ⟨htables, hfound⟩) fun _ => ⟨?_, rfl, htables, rfl⟩
    exact h.mono_schema { h.wf with sessionVersion := fun _ => rfl } .rfl rfl rfl
  refine follows_bind.mpr (follows_ask h rfl (hcolumn.andThen ?_))
  rintro - t ⟨ht, happlied, htables, hcolumn⟩
  rw [← happlied] at h2 h3
  have hwf : Wf (Stmt.apply t .createProviderUsers) := { ht.wf with userTable := fun _ => rfl }
  have hkept := ht.mono_schema hwf .rfl rfl rfl
  have heval : Query.eval (Stmt.apply t .createProviderUsers) .providers = .ok t.providers :=
    if_pos htables
  refine follows_bind.mpr (follows_exec ht trivial (follows_bind.mpr ?_))
  refine follows_ask hkept heval ?_
  refine (follows_insertLegacies t.providers ⟨hkept, h2, h3, hcolumn, rfl, rfl⟩
    fun _ => id).andThen ?_
  rintro - u ⟨hu, -, hall⟩
  have hwf := hu.kept.wf.record (v := 3) nofun nofun 
    (fun _ => ⟨hu.before, hu.sessionVersion, hu.userTable⟩) nofun
  have hrecorded : 3 ∈ (Stmt.apply u (.record 3)).applied := mem_record.mpr (.inr rfl)
  refine follows_exec hu.kept hu.pending ⟨⟨hwf, fun _ => hrecorded, hu.kept.users,
    fun hdb p hp hlegacy => .inl ?_, fun hnot => absurd hrecorded hnot, hu.kept.origin⟩, hrecorded⟩
  rcases hu.kept.legacy hdb p hp hlegacy with hrow | ⟨-, q, hq, hid, husername, hpassword⟩
  · exact hrow
  · rw [hu.providers] at hq
    obtain ⟨r, hr, hprovider, hname⟩ := hall q hq
      ⟨by rw [husername]; exact hlegacy.1, by rw [hpassword]; exact hlegacy.2⟩
    exact ⟨r, hr, hprovider.trans hid, by rw [hname, husername]⟩

/-! ### Migration 4 -/

/-- In the loop of migration 4, with these rows of `provider_users` to come. -/
structure Hashing (pbkdf2 : Text → Bytes → ℕ → ℕ → Bytes) (db : Db) (todo : List User) (s : Db) :
    Prop where
  /-- the invariant -/
  kept : Kept pbkdf2 db s
  /-- migration 3 is recorded -/
  before : 3 ∈ s.applied
  /-- migration 4 is not -/
  pending : 4 ∉ s.applied
  /-- its column is there -/
  hashColumn : s.hashColumn = true
  /-- the rows are as they were -/
  rows : ∀ r ∈ todo, r ∈ s.users
  /-- each comes once -/
  ids : (todo.map User.id).Nodup
  /-- the others have no password in plain text -/
  rest : ∀ r ∈ s.users, r ∈ todo ∨ r.password = []

theorem id_inj (h : (s.users.map User.id).Nodup) (hr : r ∈ s.users) (hr' : r' ∈ s.users)
    (hid : r.id = r'.id) : r = r' := List.inj_on_of_nodup_map h hr hr' hid

theorem follows_storeHash {row : User} {todo : List User} {hash : Text}
    (h : Hashing pbkdf2 db (row :: todo) s) (hhash : isProviderPasswordHash hash = true)
    (hverified : row.verified = true → row.passwordHash = some hash)
    (hnew : row.verified = false → verifyProviderPassword pbkdf2 row.password hash = true) :
    Follows (.guarded effect (Kept pbkdf2 db)) (exec (.storeHash row.id hash)) s
      (fun _ s' => Hashing pbkdf2 db todo s') R := by
  have htable : s.userTable = true := h.kept.wf.userTable h.before
  have hadmits : Stmt.Admits s (.storeHash row.id hash) :=
    ⟨htable, h.hashColumn, fun _ => blank_eq_false hhash⟩
  have hrow := h.rows row (List.mem_cons_self ..)
  have husers : (Stmt.apply s (.storeHash row.id hash)).users = s.users.map fun r =>
      if r.id = row.id then { r with passwordHash := some hash, password := [] } else r := rfl
  have hids : ((Stmt.apply s (.storeHash row.id hash)).users.map User.id).Nodup := by
    rw [husers, map_id_of_same fun r => by split <;> rfl]
    exact h.kept.wf.userIds
  have hwf : Wf (Stmt.apply s (.storeHash row.id hash)) :=
    { h.kept.wf with
      cleared := fun h4 => absurd h4 h.pending
      userIds := hids }
  have hkeeps : ∀ r ∈ s.users, r.Keeps pbkdf2
      (if r.id = row.id then { r with passwordHash := some hash, password := [] } else r) := by
    intro r hr
    split
    · next hid =>
      obtain rfl := id_inj h.kept.wf.userIds hr hrow hid
      exact ⟨rfl, rfl, rfl, rfl, .inr ⟨rfl, hhash, fun hv => (hverified hv).symm, hnew⟩⟩
    · exact .refl r
  have hkept := h.kept.mono hwf .rfl (fun r hr => ⟨_, List.mem_map_of_mem hr, hkeeps r hr⟩)
    (fun hnot => absurd h.before hnot) (fun hnot => absurd h.before hnot) fun r' hr' => by
      obtain ⟨r, hr, rfl⟩ := List.mem_map.mp hr'
      exact ⟨r, hr, hkeeps r hr⟩
  refine follows_exec h.kept hadmits ⟨hkept, h.before, h.pending, h.hashColumn, ?_, ?_, ?_⟩
  · intro r hr
    have hne : r.id ≠ row.id := fun hid => (List.nodup_cons.mp h.ids).1
      (List.mem_map.mpr ⟨r, hr, hid⟩)
    rw [husers]
    refine List.mem_map.mpr ⟨r, h.rows r (List.mem_cons_of_mem _ hr), if_neg hne⟩
  · exact (List.nodup_cons.mp h.ids).2
  · intro r' hr'
    rw [husers] at hr'
    obtain ⟨r, hr, rfl⟩ := List.mem_map.mp hr'
    split
    · exact .inr rfl
    · next hid =>
      rcases h.rest r hr with hmem | hpassword
      · exact .inl ((List.mem_cons.mp hmem).resolve_left fun heq => hid (by rw [heq]))
      · exact .inr hpassword

theorem follows_hashUser (hkey : ∀ p s n k, (pbkdf2 p s n k).length = k) {row : User}
    {todo : List User} (h : Hashing pbkdf2 db (row :: todo) s) :
    Follows (.guarded effect (Kept pbkdf2 db)) (hashUser pbkdf2 row) s
      (fun _ s' => Hashing pbkdf2 db todo s') R := by
  simp only [hashUser]
  split
  · next hverified =>
    refine follows_storeHash h hverified (fun _ => ?_) fun hnot => ?_
    · cases hhash : row.passwordHash with
      | none =>
        rw [hhash, Option.getD_none, not_verified_none] at hverified
        cases hverified
      | some hash => rfl
    · rw [User.verified, hverified] at hnot
      cases hnot
  next hverified =>
  have hnot : row.verified ≠ true := hverified
  split
  · next hempty =>
    refine ⟨h.kept, h.before, h.pending, h.hashColumn,
      fun r hr => h.rows r (List.mem_cons_of_mem _ hr), (List.nodup_cons.mp h.ids).2, fun r hr => ?_⟩
    rcases h.rest r hr with hmem | hpassword
    · rcases List.mem_cons.mp hmem with rfl | hmem
      · exact .inr hempty
      · exact .inl hmem
    · exact .inr hpassword
  · refine follows_bind.mpr ⟨h.kept, fun salt s' hs' => ?_⟩
    obtain rfl := Option.some.inj hs'
    exact follows_storeHash h (isProviderPasswordHash_hash hkey salt.2)
      (fun hv => absurd hv hnot) fun _ => verifyProviderPassword_hash hkey salt.2

theorem follows_hashUsers (hkey : ∀ p s n k, (pbkdf2 p s n k).length = k) (todo : List User)
    (h : Hashing pbkdf2 db todo s) :
    Follows (.guarded effect (Kept pbkdf2 db)) (hashUsers pbkdf2 todo) s
      (fun _ s' => Hashing pbkdf2 db [] s') R := by
  induction todo generalizing s with
  | nil => exact h
  | cons row todo ih => exact (follows_hashUser hkey h).andThen fun _ _ ht => ih ht

theorem follows_migrate4 (hkey : ∀ p s n k, (pbkdf2 p s n k).length = k) (h : Kept pbkdf2 db s)
    (h3 : 3 ∈ s.applied) (h4 : 4 ∉ s.applied) :
    Follows (.guarded effect (Kept pbkdf2 db)) (migrate4 pbkdf2) s
      (fun _ s' => Kept pbkdf2 db s' ∧ 4 ∈ s'.applied) R := by
  have hcolumn : Follows (.guarded effect (Kept pbkdf2 db))
      (execUnless s.hashColumn .addPasswordHash) s
      (fun _ s' => Kept pbkdf2 db s' ∧ s'.applied = s.applied ∧ s'.hashColumn = true) R := by
    refine follows_execUnless h (fun hfound => ⟨h, rfl, hfound⟩)
      (fun hfound => ⟨h.wf.userTable h3, hfound⟩) fun _ => ⟨?_, rfl, rfl⟩
    exact h.mono_schema { h.wf with } .rfl rfl rfl
  refine follows_bind.mpr (follows_ask h rfl (hcolumn.andThen ?_))
  rintro - t ⟨ht, happlied, hhash⟩
  rw [← happlied] at h3 h4
  have heval : Query.eval t .users = .ok t.users := if_pos ⟨ht.wf.userTable h3, hhash⟩
  refine follows_bind.mpr (follows_ask ht heval ?_)
  refine (follows_hashUsers hkey t.users
    ⟨ht, h3, h4, hhash, fun _ => id, ht.wf.userIds, fun _ => .inl⟩).andThen ?_
  rintro - u hu
  have htables : u.tables = true := hu.kept.wf.tables
    (hu.kept.wf.order2 (hu.kept.wf.order3 hu.before))
  have hproviders : (Stmt.apply u .clearLocalPasswords).providers =
      u.providers.map fun p => { p with localPassword := [] } := rfl
  have hcleared : Cleared (Stmt.apply u .clearLocalPasswords).providers u.users := by
    refine ⟨fun r hr => (hu.rest r hr).resolve_left nofun, fun p hp => ?_⟩
    obtain ⟨q, -, rfl⟩ := List.mem_map.mp hp
    rfl
  have hids : ((Stmt.apply u .clearLocalPasswords).providers.map Provider.id).Nodup := by
    rw [hproviders, List.map_map]
    exact hu.kept.wf.providerIds
  have hwf : Wf (Stmt.apply u .clearLocalPasswords) :=
    { hu.kept.wf with
      oneDefault := fun h2 => List.pairwise_map.mpr (hu.kept.wf.oneDefault h2)
      cleared := fun _ => hcleared
      providerIds := hids }
  have hkept := hu.kept.mono hwf .rfl (fun r hr => ⟨r, hr, .refl r⟩)
    (fun hnot => absurd hu.before hnot) (fun hnot => absurd hu.before hnot)
    fun r hr => ⟨r, hr, .refl r⟩
  have hwf' : Wf (Stmt.apply (Stmt.apply u .clearLocalPasswords) .createTriggers) :=
    { hwf with triggers := fun _ => hu.before }
  have hkept' := hkept.mono_schema hwf' .rfl rfl rfl
  refine follows_bind.mpr (follows_exec hu.kept htables (follows_bind.mpr ?_))
  refine follows_exec hkept ⟨htables, hu.kept.wf.userTable hu.before, hu.hashColumn⟩ ?_
  refine follows_exec hkept' hu.pending ⟨?_, mem_record.mpr (.inr rfl)⟩
  exact hkept'.record (by decide) (hwf'.record nofun nofun nofun fun _ => ⟨hu.before, hcleared⟩)

/-! ## All runs -/

theorem follows_migration {v : ℕ} {m : Op Unit} (h : Kept pbkdf2 db s)
    (hm : v ∉ s.applied → Follows (.guarded effect (Kept pbkdf2 db)) m s
      (fun _ s' => Kept pbkdf2 db s' ∧ v ∈ s'.applied) R) :
    Follows (.guarded effect (Kept pbkdf2 db)) (migration v m) s
      (fun _ s' => Kept pbkdf2 db s' ∧ v ∈ s'.applied) R := by
  refine follows_bind.mpr (follows_ask h rfl ?_)
  split
  · next happlied => exact ⟨h, of_decide_eq_true happlied⟩
  · next happlied => exact hm fun hv => happlied (decide_eq_true hv)

/-- The password for the first administrator, if there is one, is long enough. -/
def Env.Accepted (env : Env) : Prop :=
  env.configuredPassword = [] ∨ 8 ≤ length env.configuredPassword

variable (pbkdf2 env) in
/-- What is thrown says that it is too short. -/
def Refused (db : Db) : String → Db → Prop := fun _ s => Kept pbkdf2 db s ∧ ¬env.Accepted

theorem follows_seedAdministrator (h : Kept pbkdf2 db s) (h4 : 4 ∈ s.applied)
    (hcount : s.accounts.length = 0) :
    Follows (.guarded effect (Kept pbkdf2 db)) (seedAdministrator env) s
      (fun _ s' => Kept pbkdf2 db s' ∧ 4 ∈ s'.applied) (Refused pbkdf2 env db) := by
  have h3 := h.wf.order4 h4
  have htables : s.tables = true := h.wf.tables (h.wf.order2 (h.wf.order3 h3))
  unfold seedAdministrator
  split
  · exact ⟨h, h4⟩
  next hset =>
  split
  · next hshort => exact ⟨h, fun haccepted => haccepted.elim hset (Nat.not_le.mpr hshort)⟩
  · have hnew : s.accounts.contains env.configuredUsername = false := by
      rw [List.length_eq_zero_iff.mp hcount]
      rfl
    have hinserted : Kept pbkdf2 db (Stmt.apply s (.insertAdministrator env.configuredUsername)) :=
      h.mono_schema { h.wf with } .rfl rfl rfl
    have hcompleted : Kept pbkdf2 db (Stmt.apply
        (Stmt.apply s (.insertAdministrator env.configuredUsername)) .completeSetup) :=
      hinserted.mono_schema { hinserted.wf with } .rfl rfl rfl
    refine follows_bind.mpr (follows_exec h ⟨htables, h.wf.sessionVersion h3, hnew⟩ ?_)
    refine follows_bind.mpr (follows_exec hinserted htables ?_)
    exact follows_exec hcompleted htables ⟨hcompleted, h4⟩

theorem follows_finishSetup (h : Kept pbkdf2 db s) (h4 : 4 ∈ s.applied) :
    Follows (.guarded effect (Kept pbkdf2 db)) (finishSetup env) s
      (fun _ s' => Kept pbkdf2 db s' ∧ 4 ∈ s'.applied) (Refused pbkdf2 env db) := by
  have h2 := h.wf.order3 (h.wf.order4 h4)
  have htables : s.tables = true := h.wf.tables (h.wf.order2 h2)
  have hsettings : Query.eval s .hasSettings = .ok s.settings.isSome := if_pos htables
  have hrow : Follows (.guarded effect (Kept pbkdf2 db))
      (execUnless s.settings.isSome .insertSettings) s
      (fun _ s' => Kept pbkdf2 db s' ∧ s'.applied = s.applied ∧ s'.tables = true)
      (Refused pbkdf2 env db) := by
    refine follows_execUnless h (fun _ => ⟨h, rfl, htables⟩)
      (fun hnone => ⟨htables, h.wf.label h2, Option.not_isSome_iff_eq_none.mp (by rw [hnone]; decide)⟩)
      fun _ => ⟨?_, rfl, htables⟩
    exact h.mono_schema { h.wf with } .rfl rfl rfl
  refine follows_bind.mpr (follows_ask h hsettings (hrow.andThen ?_))
  rintro - t ⟨ht, happlied, htables⟩
  rw [← happlied] at h4
  refine follows_bind.mpr (follows_ask ht (if_pos htables) ?_)
  split
  · next hcount => exact follows_seedAdministrator ht h4 hcount
  · refine follows_exec ht htables ⟨?_, h4⟩
    exact ht.mono_schema { ht.wf with } .rfl rfl rfl

theorem follows_runMigrations (hkey : ∀ p s n k, (pbkdf2 p s n k).length = k)
    (h : Kept pbkdf2 db s) : Follows (.guarded effect (Kept pbkdf2 db)) (runMigrations pbkdf2 env) s
      (fun _ s' => Kept pbkdf2 db s' ∧ 4 ∈ s'.applied) (Refused pbkdf2 env db) := by
  refine follows_bind.mpr (follows_exec h trivial ?_)
  refine (follows_migration h (follows_migrate1 h)).andThen ?_
  rintro - s₁ ⟨hk₁, h1⟩
  refine (follows_migration hk₁ (follows_migrate2 hk₁ h1)).andThen ?_
  rintro - s₂ ⟨hk₂, h2⟩
  refine (follows_migration hk₂ (follows_migrate3 hk₂ h2)).andThen ?_
  rintro - s₃ ⟨hk₃, h3⟩
  refine (follows_migration hk₃ (follows_migrate4 hkey hk₃ h3)).andThen ?_
  rintro - s₄ ⟨hk₄, h4⟩
  exact follows_finishSetup hk₄ h4

theorem Kept.refl (h : Wf db) : Kept pbkdf2 db db where
  wf := h
  recorded := id
  users r hr := ⟨r, hr, .refl r⟩
  legacy hdb p hp _ := .inr ⟨hdb, p, hp, rfl, rfl, rfl⟩
  logins _ p hp := ⟨p, hp, rfl, rfl, rfl⟩
  origin r hr := .inl ⟨r, hr, .refl r⟩

/-- A user that had a password has a verifier of it. -/
theorem User.Keeps.accepts (h : r.Keeps pbkdf2 r') (hcleared : r'.password = [])
    (hnot : r.verified = false) (hne : r.password ≠ []) :
    ∃ h, r'.passwordHash = some h ∧ verifyProviderPassword pbkdf2 r.password h = true := by
  rcases h.secret with ⟨hsame, -⟩ | ⟨-, hverified, -, hnew⟩
  · exact absurd (hsame.symm.trans hcleared) hne
  · cases hhash : r'.passwordHash with
    | none =>
      rw [User.verified, hhash, Option.getD_none, not_verified_none] at hverified
      cases hverified
    | some hash => exact ⟨hash, rfl, by simpa [hhash] using hnew hnot⟩

theorem Kept.migrated (h : Kept pbkdf2 db s) (hdb : Wf db) (h4 : 4 ∈ s.applied) :
    Migrated pbkdf2 db s where
  users r hr := by
    obtain ⟨r', hr', hkeeps⟩ := h.users r hr
    refine ⟨r', hr', hkeeps.id, hkeeps.providerId, hkeeps.username, hkeeps.enabled, ?_,
      hkeeps.accepts ((h.wf.cleared h4).users r' hr')⟩
    rcases hkeeps.secret with ⟨-, hhash⟩ | ⟨-, -, hold, -⟩
    · exact fun _ => hhash
    · exact hold
  legacy hnot p hp hlegacy := by
    obtain ⟨r', hr', hprovider, hname⟩ :=
      (h.legacy hnot p hp hlegacy).resolve_right fun hrest => hrest.1 (h.wf.order4 h4)
    refine ⟨r', hr', hprovider, hname, ?_⟩
    rcases h.origin r' hr' with ⟨r, hr, hkeeps⟩ | ⟨q, hq, -, hkeeps⟩
    · exact .inl ⟨r, hr, hkeeps.id.symm, hkeeps.providerId.symm.trans hprovider,
        hkeeps.username.symm.trans hname⟩
    · -- the row comes from a provider with the same identifier, so from this one
      obtain rfl : q = p := List.inj_on_of_nodup_map hdb.providerIds hq hp
        (hkeeps.providerId.symm.trans hprovider)
      exact .inr ⟨hkeeps.enabled,
        hkeeps.accepts ((h.wf.cleared h4).users r' hr') not_verified_none hlegacy.2⟩
  cleared := h.wf.cleared h4
  oneDefault := h.wf.oneDefault (h.wf.order3 (h.wf.order4 h4))

/-- Every command has an answer. -/
theorem effect_total (s : Db) (c : Cmd) : ∃ x s', effect s c x = some s' := by
  cases c with
  | exec st =>
    by_cases hadmits : st.Admits s
    · exact ⟨.ok (), st.apply s, if_pos hadmits⟩
    · exact ⟨.error "", s, if_neg hadmits⟩
  | ask query => exact ⟨query.eval s, s, if_pos rfl⟩
  | randomUUID =>
    -- a text that is longer than all identifiers
    let id : Text := List.replicate ((s.users.map fun r => r.id.length).sum + 1) 'x'
    refine ⟨id, s, if_neg ?_⟩
    rintro ⟨r, hr, hid⟩
    have hle : r.id.length ≤ (s.users.map fun r => r.id.length).sum :=
      List.single_le_sum (fun _ _ => Nat.zero_le _) _ (List.mem_map_of_mem hr)
    have hlength : r.id.length = (s.users.map fun r => r.id.length).sum + 1 := by
      rw [hid]
      exact List.length_replicate
    omega
  | randomBytes => exact ⟨⟨List.replicate saltBytes 0, List.length_replicate⟩, s, rfl⟩

/-- After any number of runs of `runMigrations` that are cut off between two statements, a run that
is not cut off succeeds, and leaves a database that is migrated. -/
theorem migrations_survive_crashes (hkey : ∀ p s n k, (pbkdf2 p s n k).length = k)
    (haccepted : env.Accepted) (hdb : Wf db)
    (hruns : Relation.ReflTransGen (Cuts effect (runMigrations pbkdf2 env)) db s) :
    (∃ r s', Runs effect (runMigrations pbkdf2 env) s r s') ∧
      ∀ r s', Runs effect (runMigrations pbkdf2 env) s r s' →
        r = .ok () ∧ Migrated pbkdf2 db s' := by
  have hkept : Kept pbkdf2 db s := by
    induction hruns with
    | refl => exact .refl hdb
    | tail _ hcut ih =>
      exact hcut.holds (follows_runMigrations hkey ih) (fun _ _ h => h.1)
        fun _ _ h => h.1
  refine ⟨exists_runs effect_total _ s, fun r s' hrun => ?_⟩
  obtain ⟨hok, herror⟩ := (follows_runMigrations hkey hkept).of_run hrun
  rcases r with e | ⟨⟩
  · exact absurd haccepted (herror e rfl).2
  · obtain ⟨hs', h4⟩ := hok () rfl
    exact ⟨rfl, hs'.migrated hdb h4⟩

/-- A database of version 2, in which migration 3 was cut off: of two providers with credentials
one has its user. -/
def halfMigrated : Db where
  applied := [1, 2]
  tables := true
  label := true
  singleDefault := true
  sessionVersion := true
  userTable := true
  hashColumn := false
  triggers := false
  providers := [⟨"p1".toList, "family".toList, "secret".toList, 1, []⟩,
    ⟨"p2".toList, " friends ".toList, "s3cret".toList, 0, []⟩]
  users := [⟨"u1".toList, "p1".toList, "family".toList, "secret".toList, none, 1⟩]
  settings := some true
  accounts := ["admin".toList]

/-- No administrator is configured. -/
def noAdministrator : Env := ⟨none, none, none, none⟩

theorem wf_halfMigrated : Wf halfMigrated where
  order2 := by decide
  order3 := by decide
  order4 := by decide
  tables := by decide
  label := by decide
  oneDefault := by decide
  sessionVersion := by decide
  userTable := by decide
  triggers := by decide
  cleared h := absurd h (by decide)
  providerIds := by decide
  userIds := by decide

theorem accepted_noAdministrator : noAdministrator.Accepted := .inl (by decide)

/-- The next run brings it to its end. -/
theorem migrations_survive_crashes_halfMigrated :
    ∃ s, Runs effect (runMigrations toyKey noAdministrator) halfMigrated (.ok ()) s ∧
      Migrated toyKey halfMigrated s := by
  obtain ⟨⟨r, s, hrun⟩, hall⟩ := migrations_survive_crashes length_toyKey accepted_noAdministrator
    wf_halfMigrated .refl
  obtain ⟨rfl, hmigrated⟩ := hall r s hrun
  exact ⟨s, hrun, hmigrated⟩

end IptvProxy.Users.Migration
