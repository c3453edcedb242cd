import IptvProxy.Account.Setup

/-!
# Changes of the password

Logins (`app/api/auth/login/route.ts`), password changes (`app/api/auth/password/route.ts`) and
session checks (`lib/auth/session.ts`) of one account, any number of them side by side. Every
`await` is a point at which another request may go on, and a statement of the database is one step.

A change reads the row, checks two passwords, hashes one and writes the row with the next version.
Two that overlap write the same version, and the session that the first one returned outlives the
second one (`superseded_session_survives`). If a change writes only while the version is the one it
has read, a session that is accepted is from after the last change
(`password_change_ends_sessions`).

`compare` stands for `bcrypt.compare`. The requests are from the same origin, and the rate limiter
may refuse any login.
-/

namespace IptvProxy.Account.Password

open Agents Js Transition

/-- `Number(row.session_version || 1)` -/
def sessionVersion (row : UserRow) : ℕ := if row.sessionVersion = 0 then 1 else row.sessionVersion

/-- What a session is issued for. -/
structure Stamp where
  /-- `session_version` -/
  version : ℕ
  /-- *history*: how many changes had been written when the row was read that the password was
  proved against -/
  read : ℕ
  /-- *history*: the number of the change that returns the session -/
  change : Option ℕ
  deriving DecidableEq

/-- A session token. -/
structure Token where
  /-- its payload -/
  stamp : Stamp
  /-- *history*: how many changes had been written when it was issued -/
  issued : ℕ
  deriving DecidableEq

/-- What `PUT` sends. -/
structure Passwords where
  /-- `current_password` -/
  current : Text
  /-- `new_password` -/
  new : Text
  deriving DecidableEq

/-- What a session check is for. -/
inductive Use where
  /-- any other route -/
  | check
  /-- a password change -/
  | change (body : Passwords)
  deriving DecidableEq

/-- The answers. -/
inductive Response where
  /-- a login or a change succeeds, with the session cookie -/
  | success (token : Token)
  /-- the session is accepted -/
  | accepted
  /-- 401 -/
  | unauthorized
  /-- 429 -/
  | limited
  /-- 400 -/
  | invalid
  /-- 400, or 401 of a login -/
  | refused (message : String)
  /-- 500 -/
  | failed
  deriving DecidableEq

/-- `loginSchema` -/
def loginSchema (body : Body) : Option Body :=
  let username := trim body.username
  if 1 ≤ Js.length username ∧ Js.length username ≤ 128 ∧
      1 ≤ Js.length body.password ∧ Js.length body.password ≤ 1024 then
    some ⟨username, body.password⟩
  else none

/-- `passwordSchema` -/
def passwordSchema (body : Passwords) : Bool :=
  1 ≤ Js.length body.current ∧ Js.length body.current ≤ 1024 ∧
    8 ≤ Js.length body.new ∧ Js.length body.new ≤ 1024

/-- Where a request is. What it has read of the row comes with the number of changes that had been
written before. -/
inductive Pc where
  /-- login: `req.json` -/
  | loginParse (body : Body)
  /-- login: the statement -/
  | loginSelect (data : Body)
  /-- login: `verifyPassword` -/
  | loginVerify (data : Body) (user : UserRow) (read : ℕ)
  /-- an entry in the log, before a refusal -/
  | refuse (message : String)
  /-- `verifySessionToken` -/
  | verifyToken (use : Use) (token : Token)
  /-- the statement of `getSessionUser` -/
  | selectUser (use : Use) (token : Token)
  /-- change: `req.json` -/
  | parse (user : UserRow) (read : ℕ) (body : Passwords)
  /-- change: `verifyPassword` of the current password -/
  | verifyCurrent (user : UserRow) (read : ℕ) (body : Passwords)
  /-- change: `verifyPassword` of the new password -/
  | verifyNew (user : UserRow) (read : ℕ) (body : Passwords)
  /-- change: `hashPassword` -/
  | hash (user : UserRow) (read : ℕ)
  /-- change: the statement that writes the row -/
  | update (user : UserRow) (read : ℕ) (passwordHash : Text)
  /-- `createSessionToken` -/
  | sign (stamp : Stamp)
  /-- `setSessionCookie` -/
  | cookie (token : Token)
  /-- `LogService.info` -/
  | log (token : Token)
  /-- answered -/
  | answered (r : Response)
  deriving DecidableEq

/-- The account, the sessions and the requests. -/
structure State where
  /-- the row of the account -/
  row : UserRow
  /-- *history*: how many changes have been written -/
  changes : ℕ
  /-- *history*: the sessions that have been issued -/
  tokens : List Token
  /-- the requests -/
  threads : List Pc
  deriving DecidableEq

/-- How what is awaited ends. -/
structure Outcome where
  /-- it throws -/
  throws : Bool
  /-- the rate limiter refuses -/
  limited : Bool
  /-- the token has expired -/
  expired : Bool
  /-- what `hashPassword` returns -/
  passwordHash : Text
  deriving DecidableEq

/-- What happens next. -/
inductive Action where
  /-- a login -/
  | login (body : Body)
  /-- a request with session `k` -/
  | request (use : Use) (k : ℕ)
  /-- what request `i` awaits is there -/
  | run (i : ℕ) (outcome : Outcome)
  deriving DecidableEq

/-- Request `i` goes on to `pc`. -/
def State.goto (s : State) (i : ℕ) (pc : Pc) : State := { s with threads := s.threads.set i pc }

/-- The comparison in `getSessionUser`. -/
def State.accepts (s : State) (token : Token) : Bool := sessionVersion s.row = token.stamp.version

variable (compare : Text → Text → Bool)

/-- One step of request `i`, which is at `pc`. -/
def stepThread (s : State) (i : ℕ) (pc : Pc) (o : Outcome) : Option State :=
  if o.throws then
    match pc with
    | .answered _ => none
    | _ => some (s.goto i (.answered .failed))
  else match pc with
  | .loginParse body => some <| match loginSchema body with
    | none => s.goto i (.answered .invalid)
    | some data =>
      if o.limited then s.goto i (.answered .limited) else s.goto i (.loginSelect data)
  | .loginSelect data => some <|
    if s.row.username = data.username then s.goto i (.loginVerify data s.row s.changes)
    else s.goto i (.refuse "Invalid username or password")
  | .loginVerify data user read => some <|
    if compare data.password user.passwordHash then
      s.goto i (.sign ⟨sessionVersion user, read, none⟩)
    else s.goto i (.refuse "Invalid username or password")
  | .refuse message => some (s.goto i (.answered (.refused message)))
  | .verifyToken use token => some <|
    if o.expired then s.goto i (.answered .unauthorized) else s.goto i (.selectUser use token)
  | .selectUser use token => some <|
    if s.accepts token = false then s.goto i (.answered .unauthorized)
    else match use with
      | .check => s.goto i (.answered .accepted)
      | .change body => s.goto i (.parse s.row s.changes body)
  | .parse user read body => some <|
    if passwordSchema body then s.goto i (.verifyCurrent user read body)
    else s.goto i (.answered .invalid)
  | .verifyCurrent user read body => some <|
    if compare body.current user.passwordHash then s.goto i (.verifyNew user read body)
    else s.goto i (.refuse "Current password is incorrect.")
  | .verifyNew user read body => some <|
    if compare body.new user.passwordHash then
      s.goto i (.answered (.refused "New password must be different from the current password."))
    else s.goto i (.hash user read)
  | .hash user read => some (s.goto i (.update user read o.passwordHash))
  | .update user read passwordHash =>
    let version := sessionVersion user + 1
    some { s.goto i (.sign ⟨version, read, some (s.changes + 1)⟩) with
      row := { s.row with passwordHash := passwordHash, sessionVersion := version }
      changes := s.changes + 1 }
  | .sign stamp =>
    some { s.goto i (.cookie ⟨stamp, s.changes⟩) with tokens := s.tokens ++ [⟨stamp, s.changes⟩] }
  | .cookie token => some (s.goto i (.log token))
  | .log token => some (s.goto i (.answered (.success token)))
  | .answered _ => none

/-- The step function. -/
def step (s : State) : Action → Option State
  | .login body => some { s with threads := s.threads ++ [.loginParse body] }
  | .request use k =>
    s.tokens[k]?.map fun token => { s with threads := s.threads ++ [.verifyToken use token] }
  | .run i o => s.threads[i]?.bind fun pc => stepThread compare s i pc o

/-! ## What a change ends -/

/-- After change `k` no session is accepted that was issued before it, or to a request that proved
its password before it, but the one that the change returns. -/
def State.Ended (s : State) : Prop :=
  ∀ token ∈ s.tokens, ∀ k, 1 ≤ k → k ≤ s.changes → token.stamp.change ≠ some k →
    token.issued < k ∨ token.stamp.read < k → s.accepts token = false

/-- The version is the one that a change has read that is going to write. -/
def Pc.upToDate (row : UserRow) : Pc → Prop
  | .update user _ _ => sessionVersion user = sessionVersion row
  | _ => True

instance : ∀ (row : UserRow) (pc : Pc), Decidable (pc.upToDate row)
  | row, .update user _ _ => inferInstanceAs (Decidable (sessionVersion user = sessionVersion row))
  | _, .loginParse _ | _, .loginSelect _ | _, .loginVerify _ _ _ | _, .refuse _
  | _, .verifyToken _ _ | _, .selectUser _ _ | _, .parse _ _ _ | _, .verifyCurrent _ _ _
  | _, .verifyNew _ _ _ | _, .hash _ _ | _, .sign _ | _, .cookie _ | _, .log _
  | _, .answered _ => .isTrue trivial

/-- A change writes only while the version is the one that it has read. -/
def Unchanged (s : State) : Action → Prop
  | .run i _ => ∀ pc ∈ s.threads[i]?, pc.upToDate s.row
  | _ => True

instance : ∀ (s : State) (a : Action), Decidable (Unchanged s a)
  | s, .run i _ => inferInstanceAs (Decidable (∀ pc ∈ s.threads[i]?, pc.upToDate s.row))
  | _, .login _ | _, .request _ _ => .isTrue trivial

/-- The sessions at the start are not newer than the row. -/
structure State.Initial (s : State) : Prop where
  /-- nothing is under way -/
  threads : s.threads = []
  /-- nothing has been changed yet -/
  changes : s.changes = 0
  /-- the sessions -/
  tokens : ∀ token ∈ s.tokens,
    token.stamp.version ≤ sessionVersion s.row ∧ token.stamp.read = 0 ∧ token.stamp.change = none

/-- What is stamped is not newer than the row. If it has the same version, the password was proved
after the last change, or by it. -/
structure Stamp.Ok (row : UserRow) (changes : ℕ) (stamp : Stamp) : Prop where
  /-- the version -/
  version : stamp.version ≤ sessionVersion row
  /-- the time -/
  read : stamp.read ≤ changes
  /-- the last version -/
  last : stamp.version = sessionVersion row →
    stamp.read = changes ∨ stamp.change = some changes ∧ stamp.read + 1 = changes

/-- What a request has read, or is going to sign. -/
def Pc.stamp : Pc → Option Stamp
  | .loginVerify _ user read => some ⟨sessionVersion user, read, none⟩
  | .parse user read _ => some ⟨sessionVersion user, read, none⟩
  | .verifyCurrent user read _ => some ⟨sessionVersion user, read, none⟩
  | .verifyNew user read _ => some ⟨sessionVersion user, read, none⟩
  | .hash user read => some ⟨sessionVersion user, read, none⟩
  | .update user read _ => some ⟨sessionVersion user, read, none⟩
  | .sign stamp => some stamp
  | _ => none

/-- The invariant. -/
structure State.Inv (s : State) : Prop where
  /-- the requests -/
  threads : ∀ pc ∈ s.threads, ∀ stamp ∈ pc.stamp, stamp.Ok s.row s.changes
  /-- the sessions -/
  tokens : ∀ token ∈ s.tokens, token.stamp.Ok s.row s.changes ∧ token.stamp.read ≤ token.issued

variable {compare} {s s' : State} {i : ℕ} {pc pc' : Pc} {o : Outcome}

namespace State.Inv

/-- A request goes on. -/
theorem goto (h : s.Inv) (hpc' : ∀ stamp ∈ pc'.stamp, stamp.Ok s.row s.changes) : (s.goto i pc').Inv where
  threads := forall_mem_set h.threads hpc'
  tokens := h.tokens

/-- A request goes on with what it has. -/
theorem keep (h : s.Inv) (hi : s.threads[i]? = some pc) (hstamp : pc'.stamp = pc.stamp) :
    (s.goto i pc').Inv :=
  h.goto (by rw [hstamp]; exact h.threads pc (List.mem_of_getElem? hi))

/-- A request goes on with nothing. -/
theorem drop (h : s.Inv) (hstamp : pc'.stamp = none) : (s.goto i pc').Inv :=
  h.goto (by rw [hstamp]; rintro _ ⟨⟩)

/-- The row as it is. -/
theorem stamp_row : Stamp.Ok s.row s.changes ⟨sessionVersion s.row, s.changes, none⟩ :=
  ⟨Nat.le_refl _, Nat.le_refl _, fun _ => .inl rfl⟩

theorem call (h : s.Inv) (hstamp : pc'.stamp = none) :
    State.Inv { s with threads := s.threads ++ [pc'] } where
  threads := forall_mem_append h.threads (by rw [hstamp]; rintro _ ⟨⟩)
  tokens := h.tokens

/-- A change is written: what has been stamped before is older. -/
theorem update (h : s.Inv) (hi : s.threads[i]? = some pc) {user : UserRow} {read : ℕ}
    {passwordHash : Text} (hpc : pc = .update user read passwordHash)
    (hversion : sessionVersion user = sessionVersion s.row) :
    State.Inv { s.goto i (.sign ⟨sessionVersion user + 1, read, some (s.changes + 1)⟩) with
      row := { s.row with
        passwordHash := passwordHash, sessionVersion := sessionVersion user + 1 }
      changes := s.changes + 1 } := by
  have hread : read = s.changes := by
    have hok := h.threads pc (List.mem_of_getElem? hi) ⟨sessionVersion user, read, none⟩
      (by rw [hpc]; rfl)
    rcases hok.last hversion with hread | ⟨hnone, -⟩
    · exact hread
    · cases hnone
  have hnew : ∀ row : UserRow, sessionVersion
      { row with passwordHash := passwordHash, sessionVersion := sessionVersion user + 1 } =
      sessionVersion user + 1 := fun _ => rfl
  have hold : ∀ stamp : Stamp, stamp.Ok s.row s.changes →
      stamp.version < sessionVersion user + 1 ∧ stamp.read ≤ s.changes + 1 := by
    intro stamp hok
    exact ⟨by rw [hversion]; exact Nat.lt_succ_of_le hok.version, Nat.le_succ_of_le hok.read⟩
  constructor
  · refine forall_mem_set (fun u hu stamp hstamp => ?_) ?_
    · obtain ⟨hlt, hle⟩ := hold stamp (h.threads u hu stamp hstamp)
      exact ⟨by rw [hnew]; exact Nat.le_of_lt hlt, hle,
        fun heq => by rw [hnew] at heq; exact absurd heq (Nat.ne_of_lt hlt)⟩
    · rintro _ ⟨⟩
      exact ⟨Nat.le_of_eq (hnew s.row).symm, by rw [hread]; exact Nat.le_succ _,
        fun _ => .inr ⟨rfl, by rw [hread]⟩⟩
  · intro token htoken
    obtain ⟨hlt, hle⟩ := hold token.stamp (h.tokens token htoken).1
    exact ⟨⟨by rw [hnew]; exact Nat.le_of_lt hlt, hle,
      fun heq => by rw [hnew] at heq; exact absurd heq (Nat.ne_of_lt hlt)⟩,
      (h.tokens token htoken).2⟩

/-- A session is issued. -/
theorem sign (h : s.Inv) (hi : s.threads[i]? = some pc) {stamp : Stamp}
    (hpc : pc = .sign stamp) : State.Inv { s.goto i (.cookie ⟨stamp, s.changes⟩) with
      tokens := s.tokens ++ [⟨stamp, s.changes⟩] } where
  threads := forall_mem_set h.threads (by rintro _ ⟨⟩)
  tokens := by
    have hok := h.threads pc (List.mem_of_getElem? hi) stamp (by rw [hpc]; rfl)
    exact forall_mem_append h.tokens ⟨hok, hok.read⟩

theorem step {a : Action} (h : s.Inv) (ha : Unchanged s a) (hs : step compare s a = some s') :
    s'.Inv := by
  cases a with
  | login body =>
    obtain rfl := Option.some.inj hs
    exact h.call rfl
  | request use k =>
    obtain ⟨token, -, rfl⟩ := Option.map_eq_some_iff.mp hs
    exact h.call rfl
  | run i o =>
    obtain ⟨pc, hi, hrun⟩ := Option.bind_eq_some_iff.mp hs
    clear hs
    have hupdate := ha pc hi
    unfold stepThread at hrun
    split at hrun
    · split at hrun
      · cases hrun
      · obtain rfl := Option.some.inj hrun
        exact h.drop rfl
    cases pc with
    | answered => cases hrun
    | update user read passwordHash =>
      obtain rfl := Option.some.inj hrun
      exact h.update hi rfl hupdate
    | sign stamp =>
      obtain rfl := Option.some.inj hrun
      exact h.sign hi rfl
    | loginParse body =>
      obtain rfl := Option.some.inj hrun
      split
      · exact h.drop rfl
      · split <;> exact h.drop rfl
    | loginSelect data =>
      obtain rfl := Option.some.inj hrun
      split
      · exact h.goto (by rintro _ ⟨⟩; exact stamp_row)
      · exact h.drop rfl
    | selectUser use token =>
      obtain rfl := Option.some.inj hrun
      split
      · exact h.drop rfl
      · split
        · exact h.drop rfl
        · exact h.goto (by rintro _ ⟨⟩; exact stamp_row)
    | loginVerify | parse | verifyCurrent =>
      obtain rfl := Option.some.inj hrun
      split
      · exact h.keep hi rfl
      · exact h.drop rfl
    | verifyNew =>
      obtain rfl := Option.some.inj hrun
      split
      · exact h.drop rfl
      · exact h.keep hi rfl
    | hash =>
      obtain rfl := Option.some.inj hrun
      exact h.keep hi rfl
    | verifyToken =>
      obtain rfl := Option.some.inj hrun
      split <;> exact h.drop rfl
    | refuse | cookie | log =>
      obtain rfl := Option.some.inj hrun
      exact h.drop rfl

/-- What is accepted is from after the last change. -/
theorem ended (h : s.Inv) : s.Ended := by
  intro token htoken k hk hle hchange hold
  obtain ⟨hok, hissued⟩ := h.tokens token htoken
  rw [State.accepts, decide_eq_false_iff_not]
  intro hversion
  rcases hok.last hversion.symm with hread | ⟨hlast, hread⟩
  · omega
  · -- the session of the last change: `k` is an earlier one
    have hne : k ≠ s.changes := fun hk => hchange (by rw [hk]; exact hlast)
    omega

theorem of_initial (h : s.Initial) : s.Inv where
  threads := by
    rw [h.threads]
    rintro _ ⟨⟩
  tokens token htoken := by
    obtain ⟨hversion, hread, -⟩ := h.tokens token htoken
    refine ⟨⟨hversion, by rw [hread]; exact Nat.zero_le _, fun _ => .inl ?_⟩,
      by rw [hread]; exact Nat.zero_le _⟩
    rw [hread, h.changes]

end State.Inv

/-- In a run in which a change writes only while the version is the one that it has read, a change
ends the sessions from before it. -/
theorem password_change_ends_sessions {s₀ : State} (h₀ : s₀.Initial)
    (h : Run (step compare) Unchanged s₀ s) : s.Ended :=
  (h.invariant (fun _ _ _ hs ha => State.Inv.step hs ha) (State.Inv.of_initial h₀)).ended

/-! ### Two changes -/

/-- A hash that shows the password. -/
def shown (password : Text) : Text := "$2b$12$".toList ++ password

/-- The comparison that goes with it. -/
def compareShown (password passwordHash : Text) : Bool := passwordHash = shown password

/-- An administrator with one session. -/
def admin : State :=
  ⟨⟨"1".toList, "admin".toList, shown "winter 2024".toList, 1⟩, 0, [⟨⟨1, 0, none⟩, 0⟩], []⟩

theorem initial_admin : admin.Initial where
  threads := rfl
  changes := rfl
  tokens := by decide

/-- What is awaited is there; the new hash is that of `password`. -/
def fine (password : String) : Outcome := ⟨false, false, false, shown password.toList⟩

/-- A change to `password` with the session that is there. -/
def changeTo (password : String) : Action :=
  .request (.change ⟨"winter 2024".toList, password.toList⟩) 0

/-- One change. -/
def oneChange : List Action :=
  changeTo "spring 2025" :: List.replicate 10 (.run 0 (fine "spring 2025"))

/-- The session from before it is not accepted, and the one that it returns is. -/
theorem password_change_ends_sessions_once :
    ∃ s : State, s.Ended ∧ s.changes = 1 ∧ s.tokens.map s.accepts = [false, true] := by
  have h : (exec (fun s a => if decide (Unchanged s a) then step compareShown s a else none) admin
      oneChange).map (fun s => (s.changes, s.tokens.map s.accepts)) = some (1, [false, true]) := by
    decide +kernel
  obtain ⟨s, hs, hx⟩ := Run.of_tested (fun _ _ => of_decide_eq_true) h
  exact ⟨s, password_change_ends_sessions initial_admin hs, (Prod.mk.inj hx).1, (Prod.mk.inj hx).2⟩

/-- Two changes, step by step, first the one and then the other. -/
def twoChanges : List Action :=
  [changeTo "spring 2025", changeTo "summer 2025"] ++
    (List.replicate 10 [.run 0 (fine "spring 2025"), .run 1 (fine "summer 2025")]).flatten

/-- The session of the first change is accepted after the second one. -/
theorem superseded_session_survives :
    ∃ s, Run (step compareShown) (fun _ _ => True) admin s ∧ ¬s.Ended := by
  have h : (exec (step compareShown) admin twoChanges).map
      (fun s => (s.changes, s.tokens[1]?, s.tokens[1]?.map s.accepts)) =
      some (2, some ⟨⟨2, 0, some 1⟩, 2⟩, some true) := by
    decide +kernel
  obtain ⟨s, hs, hx⟩ := Run.of_eval (fun _ _ _ => trivial) h
  simp only [Prod.mk.injEq] at hx
  obtain ⟨hchanges, htoken, haccepts⟩ := hx
  rw [htoken] at haccepts
  refine ⟨s, hs, fun hended => ?_⟩
  have hrejected := hended _ (List.mem_of_getElem? htoken) 2 (by decide)
    (Nat.le_of_eq hchanges.symm) (by decide) (.inr (by decide))
  rw [Option.map_some, hrejected] at haccepts
  cases haccepts

end IptvProxy.Account.Password
