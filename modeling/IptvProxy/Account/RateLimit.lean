import Mathlib.Logic.Function.Basic
import IptvProxy.Account.Password
import IptvProxy.Lib.Unicode

/-!
# The login limit

`lib/auth/rate-limit.ts` and `POST` of `app/api/auth/login/route.ts`, any number of logins side by
side. Every `await` is a point at which another login may go on, and `Date.now()` may be anything
at any time.

The limit is checked before the row is read and the password verified, and the failure is counted
afterwards. So logins that overlap all see the old count (`overlapping_logins_exceed_limit`). If a
login passes the check only while the failures of its key and its logins under way together are
below the limit, no window gets more wrong passwords than that (`login_limit_holds`).

`compare` stands for `bcrypt.compare`. The requests are from the same origin.
-/

namespace IptvProxy.Account.RateLimit

open Agents GoText Js Transition

/-- `WINDOW_MS` -/
def windowMs : ℤ := 15 * 60 * 1000

/-- `MAX_ATTEMPTS` -/
def maxAttempts : ℕ := 8

/-- `AttemptBucket` -/
structure AttemptBucket where
  /-- `count` -/
  count : ℕ
  /-- `resetAt` -/
  resetAt : ℤ
  /-- *history*: the number of the window -/
  window : ℕ
  deriving DecidableEq

/-- `attempts` -/
abbrev Attempts : Type := Text → Option AttemptBucket

/-- `loginRateLimitKey` -/
def loginRateLimitKey (u : Unicode) (ip username : Text) : Text :=
  u.jsLower (trim ip) ++ '|' :: u.jsLower (trim username)

/-- What `checkLoginRateLimit` returns. -/
structure Rate where
  /-- `allowed` -/
  allowed : Bool
  /-- `retryAfterSeconds` -/
  retryAfterSeconds : ℤ
  deriving DecidableEq

/-- `checkLoginRateLimit`: an expired bucket is deleted. -/
def checkLoginRateLimit (attempts : Attempts) (now : ℤ) (key : Text) : Rate × Attempts :=
  match attempts key with
  | none => (⟨true, 0⟩, attempts)
  | some bucket =>
    if bucket.resetAt ≤ now then (⟨true, 0⟩, Function.update attempts key none)
    else if bucket.count < maxAttempts then (⟨true, 0⟩, attempts)
    else (⟨false, max 1 (-((now - bucket.resetAt) / 1000))⟩, attempts)

/-- The bucket that counts a failure; a new one gets the number `window`. -/
def AttemptBucket.next (now : ℤ) (window : ℕ) : Option AttemptBucket → AttemptBucket
  | none => ⟨1, now + windowMs, window⟩
  | some bucket =>
    if bucket.resetAt ≤ now then ⟨1, now + windowMs, window⟩
    else { bucket with count := bucket.count + 1 }

/-- `recordLoginFailure` -/
def recordLoginFailure (attempts : Attempts) (now : ℤ) (window : ℕ) (key : Text) : Attempts :=
  Function.update attempts key (some (.next now window (attempts key)))

/-- `clearLoginFailures` -/
def clearLoginFailures (attempts : Attempts) (key : Text) : Attempts :=
  Function.update attempts key none

/-! ## Logins -/

/-- The headers that `clientIp` reads. -/
structure Headers where
  /-- `cf-connecting-ip` -/
  connectingIp : Option Text
  /-- `x-real-ip` -/
  realIp : Option Text
  /-- `x-forwarded-for` -/
  forwardedFor : Option Text
  deriving DecidableEq

/-- `clientIp` -/
def clientIp (headers : Headers) : Text :=
  let forwarded := headers.forwardedFor.map fun s => trim (s.takeWhile (· ≠ ','))
  ((([headers.connectingIp, headers.realIp, forwarded].map fun h => h.getD []).find? (· ≠ []))).getD
    "unknown".toList

/-- The answers. -/
inductive Response where
  /-- a success, with the session cookie -/
  | success (user : UserRow)
  /-- 400 -/
  | invalid
  /-- 429 -/
  | limited (retryAfter : ℤ)
  /-- 401 -/
  | refused
  /-- 500 -/
  | failed
  deriving DecidableEq

/-- Where a login is. -/
inductive Pc where
  /-- `initDatabase` -/
  | initDatabase (headers : Headers) (body : Body)
  /-- `req.json` -/
  | parse (headers : Headers) (body : Body)
  /-- the statement -/
  | select (key : Text) (data : Body)
  /-- `verifyPassword` -/
  | verify (key : Text) (data : Body) (user : UserRow)
  /-- `LogService.warn` -/
  | refuse
  /-- `createSessionToken` -/
  | sign (user : UserRow)
  /-- `setSessionCookie` -/
  | cookie (user : UserRow)
  /-- `LogService.info` -/
  | log (user : UserRow)
  /-- answered -/
  | answered (r : Response)
  deriving DecidableEq

/-- What has happened to a key. -/
inductive Event where
  /-- a failure is recorded in a window; `verified` says that a password was verified -/
  | failed (key : Text) (window : ℕ) (verified : Bool)
  /-- a login succeeds -/
  | succeeded (key : Text)
  deriving DecidableEq

/-- The buckets and the logins. -/
structure State where
  /-- `attempts` -/
  attempts : Attempts
  /-- the logins -/
  threads : List Pc
  /-- *history*: the number of the next window -/
  windows : ℕ
  /-- *history*: what has happened, the newest first -/
  history : List Event

/-- Nothing has happened. -/
def init : State := ⟨fun _ => none, [], 0, []⟩

/-- How what is awaited ends. -/
structure Outcome where
  /-- it throws -/
  throws : Bool
  /-- `Date.now()` afterwards -/
  now : ℤ
  /-- the row that is read -/
  user : Option UserRow
  deriving DecidableEq

/-- What happens next. -/
inductive Action where
  /-- a login -/
  | login (headers : Headers) (body : Body)
  /-- what login `i` awaits is there -/
  | run (i : ℕ) (outcome : Outcome)
  deriving DecidableEq

/-- Login `i` goes on to `pc`. -/
def State.goto (s : State) (i : ℕ) (pc : Pc) : State := { s with threads := s.threads.set i pc }

/-- A failure of the key is recorded. -/
def State.fail (s : State) (now : ℤ) (key : Text) (verified : Bool) : State :=
  { s with
    attempts := recordLoginFailure s.attempts now s.windows key
    windows := s.windows + 1
    history := .failed key (AttemptBucket.next now s.windows (s.attempts key)).window verified ::
      s.history }

/-- A login with the key succeeds. -/
def State.succeed (s : State) (key : Text) : State :=
  { s with
    attempts := clearLoginFailures s.attempts key
    history := .succeeded key :: s.history }

variable (u : Unicode) (compare : Text → Text → Bool)

/-- One step of login `i`, which is at `pc`. -/
def stepThread (s : State) (i : ℕ) (pc : Pc) (o : Outcome) : Option State :=
  if o.throws then
    match pc with
    | .answered _ => none
    | _ => some (s.goto i (.answered .failed))
  else match pc with
  | .initDatabase headers body => some (s.goto i (.parse headers body))
  | .parse headers body => some <| match Password.loginSchema body with
    | none => s.goto i (.answered .invalid)
    | some data =>
      let key := loginRateLimitKey u (clientIp headers) data.username
      let (rate, attempts) := checkLoginRateLimit s.attempts o.now key
      let s := { s with attempts := attempts }
      if rate.allowed then s.goto i (.select key data)
      else s.goto i (.answered (.limited rate.retryAfterSeconds))
  | .select key data => some <| match o.user with
    | none => (s.fail o.now key false).goto i .refuse
    | some user => s.goto i (.verify key data user)
  | .verify key data user => some <|
    if compare data.password user.passwordHash then (s.succeed key).goto i (.sign user)
    else (s.fail o.now key true).goto i .refuse
  | .refuse => some (s.goto i (.answered .refused))
  | .sign user => some (s.goto i (.cookie user))
  | .cookie user => some (s.goto i (.log user))
  | .log user => some (s.goto i (.answered (.success user)))
  | .answered _ => none

/-- The step function. -/
def step (s : State) : Action → Option State
  | .login headers body => some { s with threads := s.threads ++ [.initDatabase headers body] }
  | .run i o => s.threads[i]?.bind fun pc => stepThread u compare s i pc o

/-! ## The limit -/

/-- A wrong password of the key is verified in the window. -/
def Event.wrongIn (key : Text) (window : ℕ) : Event → Bool
  | .failed k w verified => k = key && w = window && verified
  | .succeeded _ => false

/-- Between two successes of a key, or from the start, no window has more wrong passwords than the
limit says. -/
def State.Limited (s : State) : Prop :=
  ∀ key newer between older, s.history = newer ++ between ++ older → .succeeded key ∉ between →
    ∀ window, between.countP (Event.wrongIn key window) ≤ maxAttempts

/-- The key of a login that has passed the check and is not decided yet. -/
def Pc.underWay : Pc → Option Text
  | .select key _ => some key
  | .verify key _ _ => some key
  | _ => none

/-- How many logins with the key are under way. -/
def underWay (threads : List Pc) (key : Text) : ℕ := threads.countP fun pc => pc.underWay = some key

/-- How many failures of the key count at a time. -/
def Attempts.failures (attempts : Attempts) (now : ℤ) (key : Text) : ℕ :=
  match attempts key with
  | none => 0
  | some bucket => if bucket.resetAt ≤ now then 0 else bucket.count

/-- A login that is at the check finds room for its own failure, next to those of the logins that
are under way. -/
def roomy (s : State) : Action → Bool
  | .login _ _ => true
  | .run i o => match s.threads[i]? with
    | some (.parse headers body) => match Password.loginSchema body with
      | none => true
      | some data =>
        let key := loginRateLimitKey u (clientIp headers) data.username
        o.throws || !(checkLoginRateLimit s.attempts o.now key).1.allowed ||
          decide (Attempts.failures s.attempts o.now key + underWay s.threads key < maxAttempts)
    | _ => true

/-- The count of a bucket, live or not. -/
def Attempts.count (attempts : Attempts) (key : Text) : ℕ :=
  match attempts key with
  | none => 0
  | some bucket => bucket.count

/-- The invariant. -/
structure State.Inv (s : State) : Prop where
  /-- there is room for the logins that are under way -/
  room : ∀ key, Attempts.count s.attempts key + underWay s.threads key ≤ maxAttempts
  /-- a bucket counts the failures of its window -/
  counted : ∀ key bucket, s.attempts key = some bucket →
    s.history.countP (Event.wrongIn key bucket.window) ≤ bucket.count ∧ bucket.window < s.windows
  /-- the windows -/
  windows : ∀ key window, s.history.countP (Event.wrongIn key window) ≤ maxAttempts
  /-- the next window is a new one -/
  fresh : ∀ key window, s.windows ≤ window → s.history.countP (Event.wrongIn key window) = 0

variable {u compare} {s s' : State} {i : ℕ} {pc pc' : Pc} {o : Outcome} {key : Text} {now : ℤ}

section UnderWay

variable {threads : List Pc}

theorem underWay_set (hi : threads[i]? = some pc) (pc' : Pc) (key : Text) :
    underWay (threads.set i pc') key + (if pc.underWay = some key then 1 else 0) =
      underWay threads key + (if pc'.underWay = some key then 1 else 0) := by
  obtain ⟨hlt, hget⟩ := List.getElem?_eq_some_iff.mp hi
  have hset := List.countP_set (p := fun pc => decide (Pc.underWay pc = some key))
    (l := threads) (i := i) (a := pc') hlt
  rw [hget] at hset
  have hpos : Pc.underWay pc = some key →
      0 < threads.countP fun pc => decide (Pc.underWay pc = some key) := by
    intro h
    exact List.countP_pos_iff.mpr ⟨pc, List.mem_of_getElem? hi, decide_eq_true h⟩
  simp only [underWay, hset, decide_eq_true_eq]
  split
  · next h => have := hpos h; omega
  · omega

/-- A login goes on, and if it is under way it has been before. -/
theorem underWay_le (hi : threads[i]? = some pc)
    (hpc' : pc'.underWay = none ∨ pc'.underWay = pc.underWay) (k : Text) :
    underWay (threads.set i pc') k ≤ underWay threads k := by
  have hset := underWay_set hi pc' k
  rcases hpc' with hnone | hsame
  · simp only [hnone, reduceCtorEq, if_false] at hset
    omega
  · rw [hsame] at hset
    omega

/-- A login gets under way. -/
theorem underWay_enter (hi : threads[i]? = some pc) (hpc : pc.underWay = none)
    (hpc' : pc'.underWay = some key) (k : Text) :
    underWay (threads.set i pc') k = underWay threads k + (if key = k then 1 else 0) := by
  have hset := underWay_set hi pc' k
  simp only [hpc, hpc', reduceCtorEq, if_false, Option.some.injEq] at hset
  omega

/-- A login is decided. -/
theorem underWay_leave (hi : threads[i]? = some pc) (hpc : pc.underWay = some key)
    (hpc' : pc'.underWay = none) (k : Text) :
    underWay (threads.set i pc') k + (if key = k then 1 else 0) = underWay threads k := by
  have hset := underWay_set hi pc' k
  simp only [hpc, hpc', reduceCtorEq, if_false, Option.some.injEq] at hset
  omega

end UnderWay

/-- The check deletes a bucket that has expired. -/
theorem check_attempts (attempts : Attempts) (now : ℤ) (key k : Text) :
    (checkLoginRateLimit attempts now key).2 k = attempts k ∨
      (checkLoginRateLimit attempts now key).2 k = none := by
  unfold checkLoginRateLimit
  split
  · exact .inl rfl
  · split
    · by_cases hk : k = key
      · subst hk
        exact .inr (Function.update_self ..)
      · exact .inl (Function.update_of_ne hk ..)
    · split <;> exact .inl rfl

theorem check_count (attempts : Attempts) (now : ℤ) (key : Text) :
    Attempts.count (checkLoginRateLimit attempts now key).2 key =
      Attempts.failures attempts now key := by
  unfold checkLoginRateLimit Attempts.failures
  split
  · next h => simp [Attempts.count, h]
  · next bucket h =>
    split
    · simp [Attempts.count]
    · split <;> simp [Attempts.count, h]

theorem count_le_of_check (attempts : Attempts) (now : ℤ) (key k : Text) :
    Attempts.count (checkLoginRateLimit attempts now key).2 k ≤ Attempts.count attempts k := by
  rcases check_attempts attempts now key k with h | h
  · simp only [Attempts.count, h, Nat.le_refl]
  · simp only [Attempts.count, h, Nat.zero_le]

theorem count_next (now : ℤ) (window : ℕ) (attempts : Attempts) (key : Text) :
    (AttemptBucket.next now window (attempts key)).count ≤ Attempts.count attempts key + 1 := by
  unfold AttemptBucket.next Attempts.count
  split
  · exact Nat.le_refl 1
  · split
    · exact Nat.le_add_left ..
    · exact Nat.le_refl _

theorem count_record_le (attempts : Attempts) (now : ℤ) (window : ℕ) (key k : Text) :
    Attempts.count (recordLoginFailure attempts now window key) k ≤
      Attempts.count attempts k + (if key = k then 1 else 0) := by
  by_cases hk : key = k
  · subst hk
    rw [if_pos rfl, Attempts.count, recordLoginFailure, Function.update_self]
    exact count_next now window attempts key
  · rw [if_neg hk, Attempts.count, recordLoginFailure, Function.update_of_ne (Ne.symm hk)]
    exact Nat.le_refl _

theorem count_clear_le (attempts : Attempts) (key k : Text) :
    Attempts.count (clearLoginFailures attempts key) k ≤ Attempts.count attempts k := by
  by_cases hk : key = k
  · subst hk
    rw [Attempts.count, clearLoginFailures, Function.update_self]
    exact Nat.zero_le _
  · rw [Attempts.count, clearLoginFailures, Function.update_of_ne (Ne.symm hk)]
    exact Nat.le_refl _

theorem countP_failed (key : Text) (window w : ℕ) (k : Text) (verified : Bool)
    (history : List Event) :
    (Event.failed key window verified :: history).countP (Event.wrongIn k w) ≤
      history.countP (Event.wrongIn k w) + (if key = k ∧ window = w then 1 else 0) := by
  simp only [List.countP_cons, Event.wrongIn, Bool.and_eq_true, decide_eq_true_eq]
  split
  · next h => exact Nat.le_of_eq (by rw [if_pos h.1])
  · exact Nat.add_le_add_left (Nat.zero_le _) _

namespace State.Inv

theorem goto (h : s.Inv) (hi : s.threads[i]? = some pc)
    (hpc' : pc'.underWay = none ∨ pc'.underWay = pc.underWay) : (s.goto i pc').Inv where
  room k := Nat.le_trans (Nat.add_le_add_left (underWay_le hi hpc' k) _) (h.room k)
  counted := h.counted
  windows := h.windows
  fresh := h.fresh

/-- A login arrives. -/
theorem call (h : s.Inv) (hpc : pc.underWay = none) :
    State.Inv { s with threads := s.threads ++ [pc] } where
  room k := by
    have hroom := h.room k
    have hcount : underWay (s.threads ++ [pc]) k = underWay s.threads k := by
      simp [underWay, hpc]
    exact Nat.le_trans (Nat.le_of_eq (congrArg (Attempts.count s.attempts k + ·) hcount)) hroom
  counted := h.counted
  windows := h.windows
  fresh := h.fresh

/-- The check, whatever it finds. -/
theorem check (h : s.Inv) (now : ℤ) (key : Text) :
    State.Inv { s with attempts := (checkLoginRateLimit s.attempts now key).2 } where
  room k := Nat.le_trans (Nat.add_le_add_right (count_le_of_check s.attempts now key k) _)
    (h.room k)
  counted k bucket hk := by
    rcases check_attempts s.attempts now key k with heq | heq
    · exact h.counted k bucket (heq.symm.trans hk)
    · cases heq.symm.trans hk
  windows := h.windows
  fresh := h.fresh

/-- A login passes the check and finds room. -/
theorem enter (h : s.Inv) (hi : s.threads[i]? = some pc) (hpc : pc.underWay = none)
    (hpc' : pc'.underWay = some key)
    (hroom : Attempts.failures s.attempts now key + underWay s.threads key < maxAttempts) :
    State.Inv (State.goto { s with attempts := (checkLoginRateLimit s.attempts now key).2 } i
      pc') where
  room k := by
    have hcheck := (h.check now key).room k
    have henter := underWay_enter hi hpc hpc' k
    simp only [State.goto] at hcheck ⊢
    rw [henter]
    by_cases hk : key = k
    · subst hk
      rw [if_pos rfl, check_count]
      exact hroom
    · rw [if_neg hk]
      exact hcheck
  counted := (h.check now key).counted
  windows := h.windows
  fresh := h.fresh

/-- A login succeeds. -/
theorem succeed (h : s.Inv) (hi : s.threads[i]? = some pc) (hpc' : pc'.underWay = none) :
    State.Inv (State.goto (s.succeed key) i pc') where
  room k := Nat.le_trans (Nat.add_le_add (count_clear_le s.attempts key k)
    (underWay_le hi (.inl hpc') k)) (h.room k)
  counted k bucket hk := by
    have hold : s.attempts k = some bucket := by
      change Function.update s.attempts key none k = some bucket at hk
      by_cases heq : k = key
      · subst heq
        rw [Function.update_self] at hk
        cases hk
      · rwa [Function.update_of_ne heq] at hk
    exact h.counted k bucket hold
  windows := h.windows
  fresh := h.fresh

/-- The bucket of a failure counts it and the earlier ones of its window. -/
theorem counted_next (h : s.Inv) (now : ℤ) (key : Text) :
    s.history.countP (Event.wrongIn key
        (AttemptBucket.next now s.windows (s.attempts key)).window) + 1 ≤
      (AttemptBucket.next now s.windows (s.attempts key)).count ∧
    (AttemptBucket.next now s.windows (s.attempts key)).window < s.windows + 1 := by
  have hfresh := h.fresh key s.windows (Nat.le_refl _)
  unfold AttemptBucket.next
  split
  · exact ⟨Nat.le_of_eq (congrArg (· + 1) hfresh), Nat.lt_succ_self _⟩
  · next bucket hbucket =>
    obtain ⟨hcount, hlt⟩ := h.counted key bucket hbucket
    split
    · exact ⟨Nat.le_of_eq (congrArg (· + 1) hfresh), Nat.lt_succ_self _⟩
    · exact ⟨Nat.succ_le_succ hcount, Nat.lt_succ_of_lt hlt⟩

/-- A failure is recorded by a login that is under way: there is room for it. -/
theorem fail (h : s.Inv) (hi : s.threads[i]? = some pc) (hpc : pc.underWay = some key)
    (hpc' : pc'.underWay = none) (verified : Bool) :
    State.Inv (State.goto (s.fail now key verified) i pc') := by
  have hroom : ∀ k, Attempts.count (recordLoginFailure s.attempts now s.windows key) k +
      underWay (s.threads.set i pc') k ≤ maxAttempts := by
    intro k
    have hcount := count_record_le s.attempts now s.windows key k
    have hleave := underWay_leave hi hpc hpc' k
    have hold := h.room k
    omega
  have hcounted := h.counted_next now key
  have hnext : Attempts.count (recordLoginFailure s.attempts now s.windows key) key =
      (AttemptBucket.next now s.windows (s.attempts key)).count := by
    rw [Attempts.count, recordLoginFailure, Function.update_self]
  refine ⟨hroom, ?_, ?_, ?_⟩
  · intro k bucket hk
    have hle := countP_failed key
      (AttemptBucket.next now s.windows (s.attempts key)).window bucket.window k verified s.history
    change Function.update s.attempts key _ k = some bucket at hk
    by_cases heq : k = key
    · subst heq
      rw [Function.update_self] at hk
      obtain rfl := Option.some.inj hk
      rw [if_pos ⟨rfl, rfl⟩] at hle
      exact ⟨Nat.le_trans hle hcounted.1, hcounted.2⟩
    · rw [Function.update_of_ne heq] at hk
      obtain ⟨hcount, hlt⟩ := h.counted k bucket hk
      rw [if_neg fun hboth => heq hboth.1.symm] at hle
      exact ⟨Nat.le_trans hle hcount, Nat.lt_succ_of_lt hlt⟩
  · intro k window
    have hle := countP_failed key
      (AttemptBucket.next now s.windows (s.attempts key)).window window k verified s.history
    by_cases hboth : key = k ∧ (AttemptBucket.next now s.windows (s.attempts key)).window = window
    · obtain ⟨rfl, rfl⟩ := hboth
      rw [if_pos ⟨rfl, rfl⟩] at hle
      have hfull := hroom key
      rw [hnext] at hfull
      exact Nat.le_trans hle (Nat.le_trans hcounted.1 (Nat.le_trans (Nat.le_add_right ..) hfull))
    · rw [if_neg hboth] at hle
      exact Nat.le_trans hle (h.windows k window)
  · intro k window hwindow
    have hle := countP_failed key
      (AttemptBucket.next now s.windows (s.attempts key)).window window k verified s.history
    have hwindow' : s.windows + 1 ≤ window := hwindow
    rw [if_neg (by rintro ⟨-, rfl⟩; omega), h.fresh k window (by omega)] at hle
    exact Nat.le_zero.mp hle

theorem step {a : Action} (h : s.Inv) (ha : roomy u s a = true)
    (hs : step u compare s a = some s') : s'.Inv := by
  cases a with
  | login headers body =>
    obtain rfl := Option.some.inj hs
    exact h.call rfl
  | run i o =>
    obtain ⟨pc, hi, hrun⟩ := Option.bind_eq_some_iff.mp hs
    unfold stepThread at hrun
    split at hrun
    · split at hrun
      · cases hrun
      · obtain rfl := Option.some.inj hrun
        exact h.goto hi (.inl rfl)
    next hthrows =>
    cases pc with
    | answered => cases hrun
    | parse headers body =>
      obtain rfl := Option.some.inj hrun
      split
      · exact h.goto hi (.inl rfl)
      · next data hdata =>
        simp only [roomy, hi, hdata, Bool.or_eq_true, Bool.not_eq_true', decide_eq_true_eq] at ha
        dsimp only
        split
        · next hallowed =>
          refine h.enter hi rfl rfl ?_
          rcases ha with (hthrew | hrefused) | hroom
          · exact absurd hthrew hthrows
          · rw [hrefused] at hallowed
            cases hallowed
          · exact hroom
        · exact (h.check _ _).goto hi (.inl rfl)
    | select key data =>
      obtain rfl := Option.some.inj hrun
      split
      · exact h.fail hi rfl rfl false
      · exact h.goto hi (.inr rfl)
    | verify key data user =>
      obtain rfl := Option.some.inj hrun
      split
      · exact h.succeed hi rfl
      · exact h.fail hi rfl rfl true
    | initDatabase | refuse | sign | cookie | log =>
      obtain rfl := Option.some.inj hrun
      exact h.goto hi (.inl rfl)

theorem init : RateLimit.init.Inv where
  room _ := Nat.zero_le _
  counted := by rintro _ _ ⟨⟩
  windows _ _ := Nat.zero_le _
  fresh _ _ _ := rfl

theorem limited (h : s.Inv) : s.Limited := by
  intro key newer between older heq _ window
  have hall := h.windows key window
  rw [heq, List.countP_append, List.countP_append] at hall
  omega

end State.Inv

/-- **The login limit holds** in a run in which a login passes the check only while there is room
for its failure. -/
theorem login_limit_holds
    (h : Run (step u compare) (fun s a => roomy u s a = true) init s) : s.Limited :=
  (h.invariant (fun _ _ _ hs ha => State.Inv.step hs ha) State.Inv.init).limited

/-! ### Nine logins -/

/-- A login as `admin`. -/
def attempt (password : String) : Action :=
  .login ⟨none, some "192.0.2.7".toList, none⟩ ⟨"admin".toList, password.toList⟩

/-- What is awaited is there. -/
def fine : Outcome :=
  ⟨false, 0, some ⟨"1".toList, "admin".toList, Password.shown "winter 2024".toList, 1⟩⟩

/-- Nine logins with wrong passwords, one after the other. -/
def successive : List Action :=
  ((List.range 8).flatMap fun i => attempt "guess" :: List.replicate 5 (.run i fine)) ++
    attempt "guess" :: List.replicate 2 (.run 8 fine)

/-- The first eight passwords are verified, the ninth login is refused. -/
theorem login_limit_holds_successive :
    ∃ s : State, s.Limited ∧ s.history.length = 8 ∧
      s.threads[8]? = some (.answered (.limited 900)) := by
  have h : (exec (fun s a => if roomy asciiOnly s a then
      step asciiOnly Password.compareShown s a else none) init successive).map
      (fun s => (s.history.length, s.threads[8]?)) =
      some (8, some (.answered (.limited 900))) := by
    decide +kernel
  obtain ⟨s, hs, hx⟩ := Run.of_tested (fun _ _ => id) h
  exact ⟨s, login_limit_holds hs, (Prod.mk.inj hx).1, (Prod.mk.inj hx).2⟩

/-- Nine logins with wrong passwords, side by side. -/
def overlapping : List Action :=
  List.replicate 9 (attempt "guess") ++
    (List.replicate 4 ((List.range 9).map fun i => .run i fine)).flatten

/-- All nine passwords are verified in one window. -/
theorem overlapping_logins_exceed_limit :
    ∃ s, Run (step asciiOnly Password.compareShown) (fun _ _ => True) init s ∧ ¬s.Limited := by
  have h : (exec (step asciiOnly Password.compareShown) init overlapping).map State.history =
      some (List.replicate 9 (.failed "192.0.2.7|admin".toList 0 true)) := by
    decide +kernel
  obtain ⟨s, hs, hhistory⟩ := Run.of_eval (fun _ _ _ => trivial) h
  refine ⟨s, hs, fun hlimited => ?_⟩
  have hcount := hlimited "192.0.2.7|admin".toList [] s.history [] (by simp)
    (by rw [hhistory]; decide) 0
  rw [hhistory] at hcount
  exact absurd hcount (by decide)

end IptvProxy.Account.RateLimit
