import IptvProxy.Lib.Agents
import IptvProxy.Lib.Js
import IptvProxy.Lib.Transition

/-!
# The initial setup

`POST` of `app/api/auth/setup/route.ts`, any number of requests side by side. Every `await` is a
point at which another request may go on, and a statement or a batch of the database is one step.

Between the count that finds no user and the insertion there is the hash of the password, and the
only constraint of the table is on the name. So two requests with different names may both be first
(`two_administrators`). If all that are in between have the same name, one user is created
(`one_setup`).

The requests are from the same origin, and the database is initialised. The times of a row are left
out, so is the flag in `app_settings`, which this route does not read.
-/

namespace IptvProxy.Account

open Agents Js Transition

/-- A row of `users`. -/
structure UserRow where
  /-- `id` -/
  id : Text
  /-- `username`, `UNIQUE` -/
  username : Text
  /-- `password_hash` -/
  passwordHash : Text
  /-- `session_version` -/
  sessionVersion : ℕ
  deriving DecidableEq

/-- What a request sends. -/
structure Body where
  /-- `username` -/
  username : Text
  /-- `password` -/
  password : Text
  deriving DecidableEq

namespace Setup

/-- `setupSchema` -/
def setupSchema (body : Body) : Option Body :=
  let username := trim body.username
  if 3 ≤ Js.length username ∧ Js.length username ≤ 128 ∧
      8 ≤ Js.length body.password ∧ Js.length body.password ≤ 1024 then
    some ⟨username, body.password⟩
  else none

/-- The answers. -/
inductive Response where
  /-- 201, with the session cookie -/
  | created (id username : Text)
  /-- 409 -/
  | complete (message : String)
  /-- 400 -/
  | invalid
  /-- 500 -/
  | failed
  deriving DecidableEq

/-- Where a request is. -/
inductive Pc where
  /-- the count of the users -/
  | count
  /-- `req.json` -/
  | parse
  /-- `hashPassword` -/
  | hash (data : Body)
  /-- the batch -/
  | insert (username passwordHash : Text)
  /-- the count after a batch that failed -/
  | recount
  /-- `createSessionToken` -/
  | sign (id username : Text)
  /-- `setSessionCookie` -/
  | cookie (id username : Text)
  /-- `LogService.info` -/
  | log (id username : Text)
  /-- answered -/
  | answered (r : Response)
  deriving DecidableEq

/-- A request. -/
structure Thread where
  /-- what it sends -/
  body : Body
  /-- where it is -/
  pc : Pc
  deriving DecidableEq

/-- The table and the requests. -/
structure State where
  /-- `users` -/
  users : List UserRow
  /-- the requests -/
  threads : List Thread
  deriving DecidableEq

/-- Nobody has set up anything. -/
def init : State := ⟨[], []⟩

/-- How what is awaited ends. -/
structure Outcome where
  /-- it throws -/
  throws : Bool
  /-- `crypto.randomUUID()`, drawn when the password is hashed -/
  id : Text
  /-- what `hashPassword` returns -/
  passwordHash : Text
  deriving DecidableEq

/-- What happens next. -/
inductive Action where
  /-- a request comes in -/
  | request (body : Body)
  /-- what request `i` awaits is there -/
  | run (i : ℕ) (outcome : Outcome)
  deriving DecidableEq

/-- Request `i` goes on to `pc`. -/
def State.goto (s : State) (i : ℕ) (t : Thread) (pc : Pc) : State :=
  { s with threads := s.threads.set i { t with pc := pc } }

/-- The batch: it fails if a constraint of the table does not hold. -/
def State.insert (s : State) (row : UserRow) : Option State :=
  if ∃ u ∈ s.users, u.id = row.id ∨ u.username = row.username then none
  else some { s with users := s.users ++ [row] }

/-- One step of request `i`, which is `t`. -/
def stepThread (s : State) (i : ℕ) (t : Thread) (o : Outcome) : Option State :=
  match t.pc with
  | .count => some <|
    if o.throws then s.goto i t (.answered .failed)
    else if s.users ≠ [] then
      s.goto i t (.answered (.complete "Initial administrator setup is already complete."))
    else s.goto i t .parse
  | .parse => some <|
    if o.throws then s.goto i t (.answered .failed)
    else match setupSchema t.body with
      | none => s.goto i t (.answered .invalid)
      | some data => s.goto i t (.hash data)
  | .hash data => some <|
    if o.throws then s.goto i t (.answered .failed)
    else s.goto i t (.insert data.username o.passwordHash)
  | .insert username passwordHash => some <|
    match if o.throws then none else s.insert ⟨o.id, username, passwordHash, 1⟩ with
    | none => s.goto i t .recount
    | some s' => s'.goto i t (.sign o.id username)
  | .recount => some <|
    if o.throws = false ∧ s.users ≠ [] then
      s.goto i t (.answered (.complete "Administrator setup was completed by another request."))
    else s.goto i t (.answered .failed)
  | .sign id username => some <|
    if o.throws then s.goto i t (.answered .failed) else s.goto i t (.cookie id username)
  | .cookie id username => some <|
    if o.throws then s.goto i t (.answered .failed) else s.goto i t (.log id username)
  | .log id username => some <|
    if o.throws then s.goto i t (.answered .failed)
    else s.goto i t (.answered (.created id username))
  | .answered _ => none

/-- The step function. -/
def step (s : State) : Action → Option State
  | .request body => some { s with threads := s.threads ++ [⟨body, .count⟩] }
  | .run i o => s.threads[i]?.bind fun t => stepThread s i t o

/-! ## One setup -/

/-- Between the count and the insertion. -/
def Pc.between : Pc → Bool
  | .parse => true
  | .hash _ => true
  | .insert _ _ => true
  | _ => false

/-- After the insertion, unless it has failed since. -/
def Pc.entered : Pc → Bool
  | .sign _ _ => true
  | .cookie _ _ => true
  | .log _ _ => true
  | .answered (.created _ _) => true
  | _ => false

/-- Answered with success. -/
def Thread.created (t : Thread) : Bool :=
  match t.pc with
  | .answered (.created _ _) => true
  | _ => false

/-- The name a request is going to insert. -/
def Thread.name (t : Thread) : Text := trim t.body.username

/-- The name is that of the request. -/
def Pc.named (name : Text) : Pc → Prop
  | .hash data => data.username = name
  | .insert username _ => username = name
  | _ => True

/-- A request that is going to count does not find another one between its count and its insertion
that has another name. -/
def SameName (s : State) : Action → Prop
  | .run i _ => ∀ t ∈ s.threads[i]?, t.pc = .count →
    ∀ u ∈ s.threads, u.pc.between = true → u.name = t.name
  | .request _ => True

instance : ∀ (s : State) (a : Action), Decidable (SameName s a)
  | s, .run i _ => inferInstanceAs (Decidable (∀ t ∈ s.threads[i]?, t.pc = .count →
      ∀ u ∈ s.threads, u.pc.between = true → u.name = t.name))
  | _, .request _ => inferInstanceAs (Decidable True)

/-- The invariant. -/
structure State.Inv (s : State) : Prop where
  /-- at most one user -/
  users : s.users.length ≤ 1
  /-- what is hashed and inserted -/
  named : ∀ t ∈ s.threads, t.pc.named t.name
  /-- those in between have the same name -/
  between : ∀ t ∈ s.threads, ∀ u ∈ s.threads, t.pc.between = true → u.pc.between = true →
    t.name = u.name
  /-- and so has the user -/
  taken : ∀ t ∈ s.threads, t.pc.between = true → ∀ row ∈ s.users, row.username = t.name
  /-- who has inserted a user -/
  inserted : ∀ t ∈ s.threads, t.pc.entered = true → s.users ≠ []
  /-- only one has -/
  once : ∀ (i j : ℕ) (t u : Thread), s.threads[i]? = some t → s.threads[j]? = some u →
    t.pc.entered = true → u.pc.entered = true → i = j

variable {s s' : State} {i : ℕ} {t : Thread} {pc : Pc} {o : Outcome}

namespace State.Inv

theorem init : Setup.init.Inv where
  users := by decide
  named _ h := by cases h
  between _ h := by cases h
  taken _ h := by cases h
  inserted _ h := by cases h
  once _ _ _ _ h := by cases h

/-- A request goes on, and neither counts nor inserts. -/
theorem goto (h : s.Inv) (hi : s.threads[i]? = some t) (hnamed : pc.named t.name)
    (hbetween : pc.between = true → t.pc.between = true)
    (hentered : pc.entered = true → t.pc.entered = true) : (s.goto i t pc).Inv where
  users := h.users
  named := forall_mem_set h.named hnamed
  between := by
    have ht := List.mem_of_getElem? hi
    refine forall_mem_set (fun u hu => ?_) ?_
    · exact forall_mem_set (h.between u hu) fun hb hpc => h.between u hu t ht hb (hbetween hpc)
    · refine forall_mem_set (fun u hu hpc => ?_) fun _ _ => rfl
      exact h.between t ht u hu (hbetween hpc)
  taken := forall_mem_set h.taken fun hpc => h.taken t (List.mem_of_getElem? hi) (hbetween hpc)
  inserted := forall_mem_set h.inserted fun hpc =>
    h.inserted t (List.mem_of_getElem? hi) (hentered hpc)
  once := by
    intro j k u v hj hk hu hv
    rcases getElem?_set_cases hj with ⟨hji, rfl⟩ | ⟨-, hj⟩
    · rcases getElem?_set_cases hk with ⟨hki, -⟩ | ⟨-, hk⟩
      · exact hji.trans hki.symm
      · exact hji.trans (h.once _ _ _ _ hi hk (hentered hu) hv)
    · rcases getElem?_set_cases hk with ⟨hki, rfl⟩ | ⟨-, hk⟩
      · exact (h.once _ _ _ _ hj hi hu (hentered hv)).trans hki.symm
      · exact h.once _ _ _ _ hj hk hu hv

/-- A request goes to an answer that is not a success. -/
theorem refuse (h : s.Inv) (hi : s.threads[i]? = some t) (hnamed : pc.named t.name)
    (hbetween : pc.between = false) (hentered : pc.entered = false) : (s.goto i t pc).Inv :=
  h.goto hi hnamed (fun hpc => by rw [hbetween] at hpc; cases hpc)
    fun hpc => by rw [hentered] at hpc; cases hpc

/-- A request has counted no user. -/
theorem count (h : s.Inv) (husers : s.users = [])
    (hsame : ∀ u ∈ s.threads, u.pc.between = true → u.name = t.name) :
    (s.goto i t .parse).Inv where
  users := h.users
  named := forall_mem_set h.named trivial
  between := by
    refine forall_mem_set (fun u hu => ?_) ?_
    · exact forall_mem_set (h.between u hu) fun hb _ => hsame u hu hb
    · exact forall_mem_set (fun u hu _ hb => (hsame u hu hb).symm) fun _ _ => rfl
  taken := by
    intro u _ _ row hrow
    change row ∈ s.users at hrow
    rw [husers] at hrow
    cases hrow
  inserted := forall_mem_set h.inserted fun hpc => by cases hpc
  once := by
    intro j k u v hj hk hu hv
    rcases getElem?_set_cases hj with ⟨-, rfl⟩ | ⟨-, hj⟩
    · cases hu
    · rcases getElem?_set_cases hk with ⟨-, rfl⟩ | ⟨-, hk⟩
      · cases hv
      · exact h.once _ _ _ _ hj hk hu hv

/-- A request has inserted its user. -/
theorem insert (h : s.Inv) (hi : s.threads[i]? = some t) {username passwordHash id : Text}
    (hpc : t.pc = .insert username passwordHash)
    (hs : s.insert ⟨id, username, passwordHash, 1⟩ = some s') :
    (s'.goto i t (.sign id username)).Inv := by
  have ht := List.mem_of_getElem? hi
  have hb : t.pc.between = true := by rw [hpc]; rfl
  have hname : username = t.name := by
    have := h.named t ht
    rwa [hpc] at this
  rw [State.insert] at hs
  split at hs
  · cases hs
  next hfree =>
  obtain rfl := Option.some.inj hs
  -- a user that is there has the name of this request
  have husers : s.users = [] := by
    apply List.eq_nil_iff_forall_not_mem.mpr
    intro row hrow
    exact hfree ⟨row, hrow, .inr ((h.taken t ht hb row hrow).trans hname.symm)⟩
  have hnobody : ∀ u ∈ s.threads, u.pc.entered = true → False :=
    fun u hu hpc => h.inserted u hu hpc husers
  constructor
  · change (s.users ++ [_]).length ≤ 1
    rw [husers]
    exact Nat.le_refl 1
  · exact forall_mem_set h.named trivial
  · refine forall_mem_set (fun u hu => ?_) (fun _ _ hpc => by cases hpc)
    exact forall_mem_set (h.between u hu) fun _ hpc => by cases hpc
  · refine forall_mem_set (fun u hu hpc row hrow => ?_) (fun hpc => by cases hpc)
    change row ∈ s.users ++ [_] at hrow
    rw [husers] at hrow
    obtain rfl := List.mem_singleton.mp hrow
    exact hname.trans (h.between t ht u hu hb hpc)
  · exact fun _ _ _ hnil => by simp [State.goto] at hnil
  · intro j k u v hj hk hu hv
    rcases getElem?_set_cases hj with ⟨rfl, -⟩ | ⟨-, hj⟩
    · rcases getElem?_set_cases hk with ⟨rfl, -⟩ | ⟨-, hk⟩
      · rfl
      · exact (hnobody v (List.mem_of_getElem? hk) hv).elim
    · exact (hnobody u (List.mem_of_getElem? hj) hu).elim

theorem setupSchema_username {body data : Body} (h : setupSchema body = some data) :
    data.username = trim body.username := by
  simp only [setupSchema] at h
  split at h
  · obtain rfl := Option.some.inj h
    rfl
  · cases h

theorem step {a : Action} (h : s.Inv) (ha : SameName s a) (hs : step s a = some s') : s'.Inv := by
  cases a with
  | request body =>
    obtain rfl := Option.some.inj hs
    refine ⟨h.users, forall_mem_append h.named trivial, ?_, ?_, ?_, ?_⟩
    · refine forall_mem_append (fun u hu => ?_) (fun _ _ hpc => by cases hpc)
      exact forall_mem_append (h.between u hu) fun _ hpc => by cases hpc
    · exact forall_mem_append h.taken fun hpc => by cases hpc
    · exact forall_mem_append h.inserted fun hpc => by cases hpc
    · intro j k u v hj hk hu hv
      rcases getElem?_append_cases hj with hj | rfl
      · rcases getElem?_append_cases hk with hk | rfl
        · exact h.once _ _ _ _ hj hk hu hv
        · cases hv
      · cases hu
  | run i o =>
    obtain ⟨t, hi, hrun⟩ := Option.bind_eq_some_iff.mp hs
    clear hs
    have hnamed := h.named t (List.mem_of_getElem? hi)
    rw [stepThread] at hrun
    split at hrun
    all_goals try obtain rfl := Option.some.inj hrun
    · next hpc =>
      split
      · exact h.refuse hi trivial rfl rfl
      · split
        · exact h.refuse hi trivial rfl rfl
        · next husers => exact h.count (not_not.mp husers) (ha t hi hpc)
    · next hpc =>
      have hb : t.pc.between = true := by rw [hpc]; rfl
      split
      · exact h.refuse hi trivial rfl rfl
      · split
        · exact h.refuse hi trivial rfl rfl
        · next data hdata =>
          exact h.goto hi (setupSchema_username hdata) (fun _ => hb) fun hpc => by cases hpc
    · next data hpc =>
      rw [hpc] at hnamed
      split
      · exact h.refuse hi trivial rfl rfl
      · exact h.goto hi hnamed (fun _ => by rw [hpc]; rfl) fun hpc => by cases hpc
    · next username passwordHash hpc =>
      split
      · exact h.refuse hi trivial rfl rfl
      · next s' hinsert =>
        split at hinsert
        · cases hinsert
        · exact h.insert hi hpc hinsert
    · split
      · exact h.refuse hi trivial rfl rfl
      · exact h.refuse hi trivial rfl rfl
    all_goals try
      next hpc =>
      split
      · exact h.refuse hi trivial rfl rfl
      · exact h.goto hi trivial (fun hpc => by cases hpc) fun _ => by rw [hpc]; rfl
    · cases hrun

end State.Inv

/-- At most one user, and at most one request that was answered with success. -/
structure State.SetUpOnce (s : State) : Prop where
  /-- the rows -/
  users : s.users.length ≤ 1
  /-- the answers -/
  created : ∀ (i j : ℕ) (t u : Thread), s.threads[i]? = some t → s.threads[j]? = some u →
    t.created = true → u.created = true → i = j

theorem Thread.entered_of_created (h : t.created = true) : t.pc.entered = true := by
  rw [Thread.created] at h
  split at h
  · next hpc => rw [hpc]; rfl
  · cases h

/-- In a run in which no two requests with different names are between their count and their
insertion, one user is created. -/
theorem one_setup (h : Run step SameName init s) : s.SetUpOnce := by
  have hinv := h.invariant (fun _ _ _ hs ha => State.Inv.step hs ha) State.Inv.init
  exact ⟨hinv.users, fun i j t u hi hj ht hu => hinv.once i j t u hi hj
    (Thread.entered_of_created ht) (Thread.entered_of_created hu)⟩

/-! ### Two requests -/

/-- What they send. -/
def bodies : List Body :=
  [⟨"alice".toList, "correct horse".toList⟩, ⟨"bob".toList, "battery staple".toList⟩]

/-- What is awaited is there, and identifier `n` is drawn. -/
def fine (n : ℕ) : Outcome := ⟨false, (toString n).toList, "$2b$12$".toList⟩

/-- One request after the other. -/
def successive : List Action :=
  bodies.map .request ++ List.replicate 7 (.run 0 (fine 0)) ++ [.run 1 (fine 1)]

/-- The second one is refused. -/
theorem one_setup_successive :
    ∃ s : State, s.SetUpOnce ∧ s.threads.map Thread.created = [true, false] := by
  have h : (exec (fun s a => if decide (SameName s a) then step s a else none) init
      successive).map (fun s => s.threads.map Thread.created) = some [true, false] := by
    decide +kernel
  obtain ⟨s, hs, hx⟩ := Run.of_tested (fun _ _ => of_decide_eq_true) h
  exact ⟨s, one_setup hs, hx⟩

/-- Step by step, first the one and then the other. -/
def overlapping : List Action :=
  bodies.map .request ++ (List.replicate 7 [.run 0 (fine 0), .run 1 (fine 1)]).flatten

/-- Both are answered with success. -/
theorem two_administrators :
    ∃ s, Run step (fun _ _ => True) init s ∧
      s.users.length = 2 ∧ s.threads.map Thread.created = [true, true] := by
  have h : (exec step init overlapping).map
      (fun s => (s.users.length, s.threads.map Thread.created)) = some (2, [true, true]) := by
    decide +kernel
  obtain ⟨s, hs, hx⟩ := Run.of_eval (fun _ _ _ => trivial) h
  exact ⟨s, hs, (Prod.mk.inj hx).1, (Prod.mk.inj hx).2⟩

end Setup

end IptvProxy.Account
