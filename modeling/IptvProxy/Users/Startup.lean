import IptvProxy.Lib.Transition
import IptvProxy.Users.Restart

/-!
# Starting with an old database

`initDatabase` of `lib/db/index.ts`, which every service calls before it does anything else. The
calls of a process share one attempt. It makes a backup of an old database, checks it, removes old
backups, and runs the migrations. It may fail or be cut off anywhere, and a later call, or another
process, tries again.

A call that returns finds the database migrated, and once the database has changed there is a backup
of what it was, as long as no more backups have been started than are kept
(`startups_keep_the_database`). From every state that this can lead to, those who wait can return,
if the password for a first administrator is not too short (`waiting_calls_can_return`).
-/

namespace IptvProxy.Users.Startup

open Effect Js Migration Transition

/-- `LATEST_SCHEMA_VERSION` -/
def LATEST_SCHEMA_VERSION : ℕ := 4

/-- `MAX_MIGRATION_BACKUPS` -/
def MAX_MIGRATION_BACKUPS : ℕ := 5

/-- Program points of the attempt. -/
inductive Pc where
  /-- one of the five `PRAGMA`s; `databaseExisted` -/
  | pragma (databaseExisted : Bool) (left : ℕ)
  /-- `currentSchemaVersion` -/
  | version
  /-- `assertDatabaseHealthy(db, 'Source')` -/
  | quickCheck
  /-- `PRAGMA wal_checkpoint(FULL)` -/
  | checkpoint
  /-- `VACUUM INTO`, with the directory for it -/
  | vacuum
  /-- `assertDatabaseHealthy(backupClient, 'Migration backup')` -/
  | verify
  /-- `rmSync(backupPath)`, with what will be thrown -/
  | discard (message : String)
  /-- `pruneMigrationBackups` -/
  | prune
  /-- the rest of `runMigrations` -/
  | migrate (rest : Op Unit)

/-- A call of `initDatabase`. -/
inductive Caller where
  | waiting
  | returned
  | threw (message : String)
  deriving DecidableEq

/-- The files and the variables of the module. -/
structure State where
  /-- the database -/
  disk : Db
  /-- its file is there and not empty -/
  existed : Bool
  /-- the backups, the newest first; `none` is a file that is no copy -/
  backups : List (Option Db)
  /-- `initialized` -/
  initialized : Bool
  /-- `initializationPromise`, until it settles -/
  attempt : Option Pc
  /-- the calls -/
  callers : List Caller
  /-- *history*: how many backups have been started -/
  started : ℕ

/-- An old database, and a process that has not touched it. -/
def initial (db : Db) : State := ⟨db, true, [], false, none, [], 0⟩

/-- What happens next. -/
inductive Action where
  /-- `initDatabase` is called -/
  | call
  /-- what is awaited ends; `file` says that `VACUUM INTO` leaves a file which is a copy, or a torn
  one if it throws, and that `rmSync` works -/
  | answer (outcome : Except String Unit) (file : Bool)
  /-- old backups are removed; `left` could not be removed -/
  | pruned (left : List (Option Db))
  /-- a command of the migrations -/
  | statement (answer : (c : Cmd) → c.Answer)
  /-- the migrations are at their end -/
  | settle
  /-- the process ends, and another one starts; `torn` says that `VACUUM INTO` leaves a file -/
  | restart (torn : Bool)

/-- What a call becomes when the attempt ends. -/
def Caller.settle (result : Caller) : Caller → Caller
  | .waiting => result
  | caller => caller

/-- The attempt goes on. -/
def State.goto (s : State) (pc : Pc) : State := { s with attempt := some pc }

/-- The attempt throws. -/
def State.fail (s : State) (message : String) : State :=
  { s with attempt := none, callers := s.callers.map (Caller.settle (.threw message)) }

/-- The attempt succeeds. -/
def State.succeed (s : State) : State :=
  { s with
    initialized := true
    attempt := none
    callers := s.callers.map (Caller.settle .returned) }

/-- A backup is written. -/
def State.write (s : State) (file : Option Db) : State :=
  { s with backups := file :: s.backups, started := s.started + 1 }

/-- `MAX(version)` of `schema_migrations` -/
def schemaVersion (db : Db) : ℕ := db.applied.foldr max 0

variable (pbkdf2 : Text → Bytes → ℕ → ℕ → Bytes) (env : Env)

/-- What the attempt does when what it awaits ends. -/
def advance (s : State) (file : Bool) : Pc → Except String Unit → Option State
  | .pragma existed (left + 1), .ok () => some (s.goto (.pragma existed left))
  | .pragma existed 0, .ok () =>
    some ({ s with existed := true }.goto
      (if existed then .version else .migrate (runMigrations pbkdf2 env)))
  | .version, .ok () =>
    some (s.goto
      (if LATEST_SCHEMA_VERSION ≤ schemaVersion s.disk then .migrate (runMigrations pbkdf2 env)
      else .quickCheck))
  | .quickCheck, .ok () => some (s.goto .checkpoint)
  | .checkpoint, .ok () => some (s.goto .vacuum)
  | .vacuum, .ok () => some ((s.write (if file then some s.disk else none)).goto .verify)
  | .vacuum, .error message => some ((if file then s.write none else s).fail message)
  -- a file that is no copy does not pass
  | .verify, .ok () => if s.backups.head? = some none then none else some (s.goto .prune)
  | .verify, .error message => some (s.goto (.discard message))
  | .discard message, _ =>
    some ((if file then { s with backups := s.backups.tail } else s).fail message)
  | .prune, .ok () => none
  | .migrate _, .ok () => none
  | _, .error message => some (s.fail message)

/-- One step. -/
def step (s : State) : Action → Option State
  | .call =>
    if s.initialized then some { s with callers := s.callers ++ [.returned] }
    else some { s with
      callers := s.callers ++ [.waiting]
      attempt := some (s.attempt.getD (.pragma s.existed 4)) }
  | .answer outcome file =>
    match s.attempt with
    | some pc => advance pbkdf2 env s file pc outcome
    | none => none
  | .pruned left =>
    match s.attempt with
    | some .prune =>
      if left.Sublist (s.backups.drop MAX_MIGRATION_BACKUPS) then
        some ({ s with backups := s.backups.take MAX_MIGRATION_BACKUPS ++ left }.goto
          (.migrate (runMigrations pbkdf2 env)))
      else none
    | _ => none
  | .statement answer =>
    match s.attempt with
    | some (.migrate (.call c k)) =>
      (effect s.disk c (answer c)).map fun disk =>
        { s with disk := disk }.goto (.migrate (k (answer c)))
    | _ => none
  | .settle =>
    match s.attempt with
    | some (.migrate (.pure ())) => some s.succeed
    | some (.migrate (.throw message)) => some (s.fail message)
    | _ => none
  | .restart torn =>
    match s.attempt with
    | some .vacuum =>
      some { (if torn then s.write none else s) with
        initialized := false, attempt := none, callers := [] }
    | _ => some { s with initialized := false, attempt := none, callers := [] }

/-! ## The invariant -/

/-- There is a copy of the first database, if it has not been pushed out. -/
def State.Saved (db : Db) (s : State) : Prop :=
  s.started ≤ MAX_MIGRATION_BACKUPS → some db ∈ s.backups

/-- The newest backup is a copy of the database, or none. -/
def State.Backed (s : State) : Prop :=
  ∃ file older, s.backups = file :: older ∧ ∀ x ∈ file, x = s.disk

/-- What holds at the program points. -/
def Pc.Ok (db : Db) (s : State) : Pc → Prop
  | .pragma existed _ => existed = true
  | .verify => s.Backed
  | .discard _ => s.Backed
  | .prune => s.Backed ∧ s.backups.head? ≠ some none
  | .migrate rest => s.Saved db ∧ Follows (.guarded effect (Kept pbkdf2 db)) rest s.disk
      (fun _ s' => Kept pbkdf2 db s' ∧ 4 ∈ s'.applied) (Refused pbkdf2 env db)
  | _ => True

/-- What always holds, where `db` is the first database. -/
structure State.Safe (db : Db) (s : State) : Prop where
  /-- what the migrations keep -/
  kept : Kept pbkdf2 db s.disk
  /-- the file is there -/
  existed : s.existed = true
  /-- the database has not changed, or there is a copy -/
  safe : s.disk = db ∨ s.Saved db
  /-- every backup has been started -/
  counted : s.backups.length ≤ s.started
  /-- calls return when the attempt has succeeded -/
  returned : .returned ∈ s.callers → s.initialized = true

/-- The invariant. -/
structure State.Inv (db : Db) (s : State) : Prop where
  /-- the files -/
  files : s.Safe pbkdf2 db
  /-- nothing is done to a database that is migrated -/
  done : s.initialized = true → s.attempt = none ∧ 4 ∈ s.disk.applied
  /-- the attempt -/
  attempt : ∀ pc ∈ s.attempt, pc.Ok pbkdf2 env db s
  /-- nobody waits for nothing -/
  waiting : .waiting ∈ s.callers → s.attempt.isSome

variable {pbkdf2} {env} {db : Db} {s t : State} {a : Action} {pc : Pc} {message : String}
  {file : Option Db}

theorem State.Saved.write (h : s.Saved db) (file : Option Db) : (s.write file).Saved db :=
  fun hstarted => List.mem_cons_of_mem _ (h (Nat.le_of_succ_le hstarted))

theorem State.Safe.write (h : s.Safe pbkdf2 db) (file : Option Db) :
    (s.write file).Safe pbkdf2 db where
  kept := h.kept
  existed := h.existed
  safe := h.safe.imp id fun hsaved => hsaved.write file
  counted := Nat.succ_le_succ h.counted
  returned := h.returned

/-- A backup of the current state is removed: it is no copy of the first, unless the database has
not changed. -/
theorem State.Safe.discard (h : s.Safe pbkdf2 db) (hbacked : s.Backed) :
    State.Safe pbkdf2 db { s with backups := s.backups.tail } where
  kept := h.kept
  existed := h.existed
  safe := by
    obtain ⟨file, older, hbackups, hfile⟩ := hbacked
    by_cases hdisk : s.disk = db
    · exact .inl hdisk
    · refine .inr fun hstarted => ?_
      have hmem := h.safe.resolve_left hdisk hstarted
      rw [hbackups, List.mem_cons] at hmem
      rcases hmem with heq | hmem
      · exact absurd (hfile db heq.symm).symm hdisk
      · simpa [hbackups] using hmem
  counted := by
    rw [List.length_tail]
    exact (Nat.sub_le _ _).trans h.counted
  returned := h.returned

/-- What is not removed are all backups, unless too many have been started. -/
theorem State.Saved.prune (h : s.Saved db) (hcounted : s.backups.length ≤ s.started)
    (left : List (Option Db)) :
    State.Saved db { s with backups := s.backups.take MAX_MIGRATION_BACKUPS ++ left } := by
  intro hstarted
  rw [List.take_of_length_le (hcounted.trans hstarted)]
  exact List.mem_append_left _ (h hstarted)

/-- A database with a copy of its own is safe to change. -/
theorem State.Safe.saved (h : s.Safe pbkdf2 db) (hbacked : s.Backed)
    (hcopy : s.backups.head? ≠ some none) : s.Saved db := by
  obtain ⟨file, older, hbackups, hfile⟩ := hbacked
  rcases h.safe with hdisk | hsaved
  · intro _
    cases file with
    | none => exact absurd (by rw [hbackups]; rfl) hcopy
    | some x => rw [hbackups, ← hdisk, hfile x rfl]; exact List.mem_cons_self
  · exact hsaved

theorem ok_goto (pc pc' : Pc) : pc.Ok pbkdf2 env db (s.goto pc') ↔ pc.Ok pbkdf2 env db s := by
  cases pc <;> rfl

/-- The attempt goes on. -/
theorem State.Safe.goto (h : s.Safe pbkdf2 db) (hopen : ¬s.initialized = true)
    (hpc : pc.Ok pbkdf2 env db s) : (s.goto pc).Inv pbkdf2 env db where
  files := ⟨h.kept, h.existed, h.safe, h.counted, h.returned⟩
  done hdone := absurd hdone hopen
  attempt := by
    rintro pc' ⟨⟩
    exact (ok_goto pc pc).mpr hpc
  waiting _ := rfl

theorem ok_callers (pc : Pc) (callers : List Caller) (attempt : Option Pc) :
    pc.Ok pbkdf2 env db { s with callers := callers, attempt := attempt } ↔
      pc.Ok pbkdf2 env db s := by
  cases pc <;> rfl

/-- Another process starts. -/
theorem State.Safe.restart (h : s.Safe pbkdf2 db) : State.Inv pbkdf2 env db
    { s with initialized := false, attempt := none, callers := [] } where
  files := ⟨h.kept, h.existed, h.safe, h.counted, fun hmem => absurd hmem List.not_mem_nil⟩
  done hdone := absurd hdone Bool.false_ne_true
  attempt := by rintro pc ⟨⟩
  waiting hmem := absurd hmem List.not_mem_nil

theorem length_pruned {backups left : List (Option Db)}
    (h : left.Sublist (backups.drop MAX_MIGRATION_BACKUPS)) :
    (backups.take MAX_MIGRATION_BACKUPS ++ left).length ≤ backups.length := by
  have hleft := h.length_le
  rw [List.length_append, List.length_take]
  rw [List.length_drop] at hleft
  omega

theorem mem_settle {callers : List Caller} {result : Caller}
    (h : .returned ∈ callers.map (Caller.settle result)) (hne : result ≠ .returned) :
    .returned ∈ callers := by
  obtain ⟨caller, hmem, heq⟩ := List.mem_map.mp h
  cases caller with
  | waiting => exact absurd heq hne
  | returned => exact hmem
  | threw message => cases heq

/-- Nobody waits for an attempt that has ended. -/
theorem waiting_notMem_settle {callers : List Caller} {result : Caller} (hne : result ≠ .waiting) :
    .waiting ∉ callers.map (Caller.settle result) := by
  intro h
  obtain ⟨caller, -, heq⟩ := List.mem_map.mp h
  cases caller with
  | waiting => exact hne heq
  | returned => cases heq
  | threw message => cases heq

/-- The attempt throws. -/
theorem State.Safe.fail (h : s.Safe pbkdf2 db) (hopen : ¬s.initialized = true) (message : String) :
    (s.fail message).Inv pbkdf2 env db where
  files := ⟨h.kept, h.existed, h.safe, h.counted,
    fun hmem => h.returned (mem_settle hmem (by simp))⟩
  done hdone := absurd hdone hopen
  attempt := by rintro pc' ⟨⟩
  waiting hmem := absurd hmem (waiting_notMem_settle (by simp))

/-- The migrations may start. -/
theorem State.Safe.migrate (hkey : ∀ p s n k, (pbkdf2 p s n k).length = k)
    (h : s.Safe pbkdf2 db) (hsaved : s.Saved db) :
    Pc.Ok pbkdf2 env db s (.migrate (runMigrations pbkdf2 env)) :=
  ⟨hsaved, follows_runMigrations hkey h.kept⟩

/-- The versions that are recorded are old ones. -/
def Pending (db : Db) : Prop := ∀ version ∈ db.applied, version < LATEST_SCHEMA_VERSION

theorem schemaVersion_lt (h : Pending db) : schemaVersion db < LATEST_SCHEMA_VERSION := by
  have hall : ∀ versions : List ℕ, (∀ version ∈ versions, version < LATEST_SCHEMA_VERSION) →
      versions.foldr max 0 < LATEST_SCHEMA_VERSION := by
    intro versions hversions
    induction versions with
    | nil => decide
    | cons version versions ih =>
      exact max_lt (hversions version List.mem_cons_self)
        (ih fun v hv => hversions v (List.mem_cons_of_mem _ hv))
  exact hall db.applied h

/-- While there is an attempt, none has succeeded. -/
theorem State.Inv.not_done (hs : s.Inv pbkdf2 env db) (hpc : s.attempt = some pc) :
    ¬s.initialized = true := by
  intro hdone
  rw [(hs.done hdone).1] at hpc
  cases hpc

theorem inv_advance (hkey : ∀ p s n k, (pbkdf2 p s n k).length = k) (hdb : Pending db) {file : Bool}
    {outcome : Except String Unit} (hs : s.Inv pbkdf2 env db) (hpc : s.attempt = some pc)
    (h : advance pbkdf2 env s file pc outcome = some t) : t.Inv pbkdf2 env db := by
  have hopen := hs.not_done hpc
  have hok : pc.Ok pbkdf2 env db s := hs.attempt pc hpc
  cases outcome with
  | error message =>
    cases pc with
    | vacuum =>
      obtain rfl := Option.some.inj h
      split
      · exact (hs.files.write none).fail hopen message
      · exact hs.files.fail hopen message
    | verify =>
      obtain rfl := Option.some.inj h
      exact hs.files.goto hopen hok
    | discard message' =>
      obtain rfl := Option.some.inj h
      split
      · exact (hs.files.discard hok).fail hopen message'
      · exact hs.files.fail hopen message'
    | pragma existed left =>
      cases left <;> (obtain rfl := Option.some.inj h; exact hs.files.fail hopen message)
    | version => obtain rfl := Option.some.inj h; exact hs.files.fail hopen message
    | quickCheck => obtain rfl := Option.some.inj h; exact hs.files.fail hopen message
    | checkpoint => obtain rfl := Option.some.inj h; exact hs.files.fail hopen message
    | prune => obtain rfl := Option.some.inj h; exact hs.files.fail hopen message
    | migrate rest => obtain rfl := Option.some.inj h; exact hs.files.fail hopen message
  | ok _ =>
    cases pc with
    | pragma existed left =>
      cases left with
      | zero =>
        obtain rfl := Option.some.inj h
        have hfiles : State.Safe pbkdf2 db { s with existed := true } :=
          ⟨hs.files.kept, rfl, hs.files.safe, hs.files.counted, hs.files.returned⟩
        refine hfiles.goto hopen ?_
        rw [if_pos (show existed = true from hok)]
        trivial
      | succ left =>
        obtain rfl := Option.some.inj h
        exact hs.files.goto hopen hok
    | version =>
      obtain rfl := Option.some.inj h
      refine hs.files.goto hopen ?_
      split
      · next hlatest =>
        refine hs.files.migrate hkey (hs.files.safe.resolve_left fun hdisk => ?_)
        rw [hdisk] at hlatest
        exact absurd hlatest (Nat.not_le.mpr (schemaVersion_lt hdb))
      · trivial
    | quickCheck => obtain rfl := Option.some.inj h; exact hs.files.goto hopen trivial
    | checkpoint => obtain rfl := Option.some.inj h; exact hs.files.goto hopen trivial
    | vacuum =>
      obtain rfl := Option.some.inj h
      refine (hs.files.write _).goto hopen ⟨_, s.backups, rfl, fun x hx => ?_⟩
      split at hx
      · exact (Option.some.inj hx).symm
      · cases hx
    | verify =>
      simp only [advance] at h
      split at h
      · cases h
      · next hcopy =>
        obtain rfl := Option.some.inj h
        exact hs.files.goto hopen ⟨hok, hcopy⟩
    | discard message' =>
      obtain rfl := Option.some.inj h
      split
      · exact (hs.files.discard hok).fail hopen message'
      · exact hs.files.fail hopen message'
    | prune => cases h
    | migrate rest => cases h

theorem inv_step (hkey : ∀ p s n k, (pbkdf2 p s n k).length = k) (hdb : Pending db)
    (hs : s.Inv pbkdf2 env db) (h : step pbkdf2 env s a = some t) : t.Inv pbkdf2 env db := by
  cases a with
  | call =>
    simp only [step] at h
    split at h
    · next hinit =>
      obtain rfl := Option.some.inj h
      refine ⟨⟨hs.files.kept, hs.files.existed, hs.files.safe, hs.files.counted, fun _ => hinit⟩,
        hs.done, hs.attempt, fun hmem => hs.waiting ?_⟩
      rcases List.mem_append.mp hmem with hmem | hmem
      · exact hmem
      · cases List.mem_singleton.mp hmem
    · next hinit =>
      obtain rfl := Option.some.inj h
      have hreturned : .returned ∈ s.callers ++ [.waiting] → s.initialized = true := by
        intro hmem
        rcases List.mem_append.mp hmem with hmem | hmem
        · exact hs.files.returned hmem
        · cases List.mem_singleton.mp hmem
      refine ⟨⟨hs.files.kept, hs.files.existed, hs.files.safe, hs.files.counted, hreturned⟩,
        fun hdone => absurd hdone hinit, ?_, fun _ => rfl⟩
      rintro pc ⟨⟩
      cases hattempt : s.attempt with
      | none => exact hs.files.existed
      | some pc => exact (ok_callers pc _ _).mpr (hs.attempt pc hattempt)
  | answer outcome file =>
    simp only [step] at h
    split at h
    · next pc hpc => exact inv_advance hkey hdb hs hpc h
    · cases h
  | pruned left =>
    simp only [step] at h
    split at h
    · next hpc =>
      split at h
      · next hleft =>
        obtain rfl := Option.some.inj h
        obtain ⟨hbacked, hcopy⟩ := hs.attempt _ hpc
        have hsaved := (hs.files.saved hbacked hcopy).prune hs.files.counted left
        have hfiles : State.Safe pbkdf2 db
            { s with backups := s.backups.take MAX_MIGRATION_BACKUPS ++ left } :=
          ⟨hs.files.kept, hs.files.existed, .inr hsaved,
            (length_pruned hleft).trans hs.files.counted, hs.files.returned⟩
        exact hfiles.goto (hs.not_done hpc) (hfiles.migrate hkey hsaved)
      · cases h
    · cases h
  | statement answer =>
    simp only [step] at h
    split at h
    · next c k hpc =>
      obtain ⟨disk, hdisk, rfl⟩ := Option.map_eq_some_iff.mp h
      obtain ⟨hsaved, hfollows⟩ := hs.attempt _ hpc
      have hrest := hfollows.2 _ _ hdisk
      have hkept : Kept pbkdf2 db disk := hrest.holds (fun _ _ hend => hend.1) fun _ _ hend => hend.1
      have hfiles : State.Safe pbkdf2 db { s with disk := disk } :=
        ⟨hkept, hs.files.existed, .inr hsaved, hs.files.counted, hs.files.returned⟩
      exact hfiles.goto (hs.not_done hpc) ⟨hsaved, hrest⟩
    · cases h
  | settle =>
    simp only [step] at h
    split at h
    · next hpc =>
      obtain rfl := Option.some.inj h
      obtain ⟨-, -, h4⟩ := hs.attempt _ hpc
      exact ⟨⟨hs.files.kept, hs.files.existed, hs.files.safe, hs.files.counted, fun _ => rfl⟩,
        fun _ => ⟨rfl, h4⟩, by rintro pc ⟨⟩,
        fun hmem => absurd hmem (waiting_notMem_settle (by simp))⟩
    · next message hpc =>
      obtain rfl := Option.some.inj h
      exact hs.files.fail (hs.not_done hpc) message
    · cases h
  | restart torn =>
    simp only [step] at h
    split at h
    · obtain rfl := Option.some.inj h
      split
      · exact (hs.files.write none).restart
      · exact hs.files.restart
    · obtain rfl := Option.some.inj h
      exact hs.files.restart

theorem inv_of_run (hkey : ∀ p s n k, (pbkdf2 p s n k).length = k) (hwf : Wf db) (hdb : Pending db)
    {ok : State → Action → Prop} (h : Run (step pbkdf2 env) ok (initial db) s) :
    s.Inv pbkdf2 env db :=
  h.invariant (fun _ _ _ hs _ hstep => inv_step hkey hdb hs hstep)
    ⟨⟨.refl hwf, rfl, .inl rfl, Nat.le_refl 0, fun hmem => absurd hmem List.not_mem_nil⟩,
      fun hdone => absurd hdone Bool.false_ne_true, by rintro pc ⟨⟩,
      fun hmem => absurd hmem List.not_mem_nil⟩

/-- Whenever a call returns, the database is migrated, whatever failed before and wherever processes
ended. Once the database has changed, there is a backup of what it was, as long as no more backups
have been started than are kept. -/
theorem startups_keep_the_database (hkey : ∀ p s n k, (pbkdf2 p s n k).length = k) (hwf : Wf db)
    (hdb : Pending db) {ok : State → Action → Prop}
    (h : Run (step pbkdf2 env) ok (initial db) s) :
    (.returned ∈ s.callers → Migrated pbkdf2 db s.disk) ∧
    (s.disk ≠ db → s.started ≤ MAX_MIGRATION_BACKUPS → some db ∈ s.backups) := by
  have hs := inv_of_run hkey hwf hdb h
  refine ⟨fun hmem => ?_, fun hdisk => hs.files.safe.resolve_left hdisk⟩
  exact hs.files.kept.migrated hwf (hs.done (hs.files.returned hmem)).2

/-- The answers of a database where everything works. -/
def sampleAnswer (db : Db) : (c : Cmd) → c.Answer
  | .exec _ => .ok ()
  | .ask q => q.eval db
  | .randomUUID => "u2".toList
  | .randomBytes => ⟨List.replicate saltBytes 0, List.length_replicate⟩

/-- What happens next, or a statement. -/
def sampleChoice (s : State) (next : Option Action) : Action :=
  next.getD (.statement (sampleAnswer s.disk))

/-- A start that succeeds: five `PRAGMA`s, five steps up to the checked backup, and the
migrations. -/
def sampleStart : List (Option Action) :=
  some .call :: List.replicate 10 (some (.answer (.ok ()) true)) ++ [some (.pruned [])] ++
    List.replicate 26 none ++ [some .settle]

theorem start_of_halfMigrated : ∃ s : State, s.callers = [.returned] ∧
    Migrated toyKey halfMigrated s.disk ∧ some halfMigrated ∈ s.backups := by
  have heval : (exec (fun s next =>
        if true = true then step toyKey noAdministrator s (sampleChoice s next) else none)
      (initial halfMigrated) sampleStart).map
        (fun s => (s.callers, s.started, decide (s.disk = halfMigrated))) =
      some ([.returned], 1, false) := by decide +kernel
  obtain ⟨s, hrun, hs⟩ := @Run.of_strategy _ _ (step toyKey noAdministrator) (fun _ _ => True) _ _
    _ _ _ _ _ (fun _ _ => true) (fun _ _ _ => trivial) heval
  have hcallers : s.callers = [.returned] := congrArg Prod.fst hs
  have hstarted : s.started = 1 := congrArg (fun x => x.2.1) hs
  have hdisk : s.disk ≠ halfMigrated := of_decide_eq_false (congrArg (fun x => x.2.2) hs)
  have hpending : ∀ version ∈ halfMigrated.applied, version < LATEST_SCHEMA_VERSION := by decide
  obtain ⟨hmigrated, hsaved⟩ :=
    startups_keep_the_database length_toyKey wf_halfMigrated hpending hrun
  exact ⟨s, hcallers, hmigrated (by rw [hcallers]; exact List.mem_cons_self),
    hsaved hdisk (by rw [hstarted]; decide)⟩

/-! ## Starts that succeed -/

/-- Nothing fails. -/
def Action.Works : Action → Prop
  | .answer outcome file => outcome = .ok () ∧ file = true
  | .restart _ => False
  | _ => True

variable (pbkdf2 env) in
/-- If nothing fails, the attempt succeeds, and those who wait return. -/
def State.CanSucceed (s : State) : Prop :=
  ∃ t, Run (step pbkdf2 env) (fun _ a => a.Works) s t ∧ t.initialized = true ∧
    t.callers = s.callers.map (Caller.settle .returned)

theorem State.CanSucceed.of_step (h : step pbkdf2 env s a = some t) (ha : a.Works)
    (hcallers : t.callers = s.callers) (ht : t.CanSucceed pbkdf2 env) : s.CanSucceed pbkdf2 env := by
  obtain ⟨u, hrun, hdone, hu⟩ := ht
  exact ⟨u, .head ⟨a, ha, h⟩ hrun, hdone, by rw [hu, hcallers]⟩

theorem canSucceed_migrate (haccepted : env.Accepted) (rest : Op Unit)
    (hpc : s.attempt = some (.migrate rest))
    (hfollows : Follows (.guarded effect (Kept pbkdf2 db)) rest s.disk
      (fun _ s' => Kept pbkdf2 db s' ∧ 4 ∈ s'.applied) (Refused pbkdf2 env db)) :
    s.CanSucceed pbkdf2 env := by
  induction rest generalizing s with
  | pure a =>
    refine ⟨s.succeed, .single ⟨.settle, trivial, ?_⟩, rfl, rfl⟩
    simp only [step, hpc]
  | throw message => exact absurd haccepted hfollows.2
  | call c k ih =>
    let answer : (c : Cmd) → c.Answer := fun c => (effect_total s.disk c).choose
    obtain ⟨disk, hdisk⟩ : ∃ disk, effect s.disk c (answer c) = some disk :=
      (effect_total s.disk c).choose_spec
    have hstep : step pbkdf2 env s (.statement answer) =
        some ({ s with disk := disk }.goto (.migrate (k (answer c)))) := by
      simp only [step, hpc, hdisk, Option.map_some]
    exact .of_step hstep trivial rfl (ih (answer c) rfl (hfollows.2 _ _ hdisk))

theorem State.Inv.canSucceed_migrate (haccepted : env.Accepted) {rest : Op Unit}
    (hs : s.Inv pbkdf2 env db) (hpc : s.attempt = some (.migrate rest)) : s.CanSucceed pbkdf2 env :=
  Startup.canSucceed_migrate haccepted rest hpc (hs.attempt _ hpc).2

section Attempt

variable (hkey : ∀ p s n k, (pbkdf2 p s n k).length = k) (hdb : Pending db)
include hkey hdb

/-- What is awaited ends without a failure. -/
theorem State.Inv.canSucceed_advance (hs : s.Inv pbkdf2 env db) (hpc : s.attempt = some pc)
    (h : advance pbkdf2 env s true pc (.ok ()) = some t) (hcallers : t.callers = s.callers)
    (ht : t.Inv pbkdf2 env db → t.CanSucceed pbkdf2 env) : s.CanSucceed pbkdf2 env := by
  have hstep : step pbkdf2 env s (.answer (.ok ()) true) = some t := by
    simp only [step, hpc]
    exact h
  exact .of_step hstep ⟨rfl, rfl⟩ hcallers (ht (inv_step hkey hdb hs hstep))

variable (henv : env.Accepted)
include henv

theorem State.Inv.canSucceed_prune (hs : s.Inv pbkdf2 env db) (hpc : s.attempt = some .prune) :
    s.CanSucceed pbkdf2 env := by
  have hstep : step pbkdf2 env s (.pruned []) =
      some ({ s with backups := s.backups.take MAX_MIGRATION_BACKUPS ++ [] }.goto
        (.migrate (runMigrations pbkdf2 env))) := by
    simp only [step, hpc]
    exact if_pos (List.nil_sublist _)
  exact .of_step hstep trivial rfl ((inv_step hkey hdb hs hstep).canSucceed_migrate henv rfl)

theorem State.Inv.canSucceed_vacuum (hs : s.Inv pbkdf2 env db) (hpc : s.attempt = some .vacuum) :
    s.CanSucceed pbkdf2 env := by
  refine hs.canSucceed_advance hkey hdb hpc rfl rfl fun hs₁ => ?_
  -- a copy that has just been written passes
  exact hs₁.canSucceed_advance hkey hdb rfl rfl rfl
    fun hs₂ => hs₂.canSucceed_prune hkey hdb henv rfl

theorem State.Inv.canSucceed_version (hs : s.Inv pbkdf2 env db) (hpc : s.attempt = some .version) :
    s.CanSucceed pbkdf2 env := by
  refine hs.canSucceed_advance hkey hdb hpc rfl rfl fun hs₁ => ?_
  by_cases hlatest : LATEST_SCHEMA_VERSION ≤ schemaVersion s.disk
  · exact hs₁.canSucceed_migrate henv (congrArg some (if_pos hlatest))
  · refine hs₁.canSucceed_advance hkey hdb (congrArg some (if_neg hlatest)) rfl rfl fun hs₂ => ?_
    refine hs₂.canSucceed_advance hkey hdb rfl rfl rfl fun hs₃ => ?_
    exact hs₃.canSucceed_vacuum hkey hdb henv rfl

theorem State.Inv.canSucceed_pragma {existed : Bool} {left : ℕ} (hs : s.Inv pbkdf2 env db)
    (hpc : s.attempt = some (.pragma existed left)) : s.CanSucceed pbkdf2 env := by
  induction left generalizing s with
  | zero =>
    obtain rfl : existed = true := hs.attempt _ hpc
    exact hs.canSucceed_advance hkey hdb hpc rfl rfl
      fun hs₁ => hs₁.canSucceed_version hkey hdb henv rfl
  | succ left ih => exact hs.canSucceed_advance hkey hdb hpc rfl rfl fun hs₁ => ih hs₁ rfl

end Attempt

/-- Whatever has failed before, those who wait for an attempt can still return, unless a backup is
being looked at that is no copy. -/
theorem waiting_calls_can_return (hkey : ∀ p s n k, (pbkdf2 p s n k).length = k)
    (henv : env.Accepted) (hwf : Wf db) (hdb : Pending db) {ok : State → Action → Prop}
    (h : Run (step pbkdf2 env) ok (initial db) s) (hwaiting : .waiting ∈ s.callers)
    (hbackup : ∀ pc ∈ s.attempt, pc ≠ .verify ∧ ∀ message, pc ≠ .discard message) :
    s.CanSucceed pbkdf2 env := by
  have hs := inv_of_run hkey hwf hdb h
  obtain ⟨pc, hpc⟩ := Option.isSome_iff_exists.mp (hs.waiting hwaiting)
  obtain ⟨hverify, hdiscard⟩ := hbackup pc hpc
  cases pc with
  | pragma existed left => exact hs.canSucceed_pragma hkey hdb henv hpc
  | version => exact hs.canSucceed_version hkey hdb henv hpc
  | quickCheck =>
    refine hs.canSucceed_advance hkey hdb hpc rfl rfl fun hs₁ => ?_
    exact hs₁.canSucceed_advance hkey hdb rfl rfl rfl
      fun hs₂ => hs₂.canSucceed_vacuum hkey hdb henv rfl
  | checkpoint =>
    exact hs.canSucceed_advance hkey hdb hpc rfl rfl
      fun hs₁ => hs₁.canSucceed_vacuum hkey hdb henv rfl
  | vacuum => exact hs.canSucceed_vacuum hkey hdb henv hpc
  | verify => exact absurd rfl hverify
  | discard message => exact absurd rfl (hdiscard message)
  | prune => exact hs.canSucceed_prune hkey hdb henv hpc
  | migrate rest => exact hs.canSucceed_migrate henv hpc

/-- A call that waits. -/
def waiting : State :=
  { initial halfMigrated with callers := [.waiting], attempt := some (.pragma true 4) }

theorem waiting_call_returns_halfMigrated : waiting.CanSucceed toyKey noAdministrator := by
  have hpending : ∀ version ∈ halfMigrated.applied, version < LATEST_SCHEMA_VERSION := by decide
  have hrun : Run (step toyKey noAdministrator) (fun _ _ => True) (initial halfMigrated) waiting :=
    .single ⟨.call, trivial, rfl⟩
  refine waiting_calls_can_return length_toyKey accepted_noAdministrator wf_halfMigrated hpending
    hrun List.mem_cons_self ?_
  rintro pc ⟨⟩
  exact ⟨by rintro ⟨⟩, fun message => by rintro ⟨⟩⟩

end IptvProxy.Users.Startup
