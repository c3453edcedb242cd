import IptvProxy.Lib.Agents
import IptvProxy.Lib.Transition
import IptvProxy.Users.Verifier

/-!
# Edits of a provider user

`ProviderUserService.updateUser` of `lib/services/provider-user.service.ts`, any number of calls for
one user side by side. Every `await` is a point at which another call may go on, and a statement of
the database is one step.

A call reads the row, merges its input into it and, after a look for duplicates, writes every
column back. So a call may undo what another one has written in the meantime, in a column that it
was not given (`password_change_reenables`). If what it writes in such a column is what is stored,
no edit is lost (`edits_are_kept`).

The other users of the provider are only seen through the duplicate check and the constraint of the
table. A password that is empty is no new password. `updated_at` is left out.
-/

namespace IptvProxy.Users.Update

open Agents Js Transition

/-- The row of the user. -/
structure Row where
  /-- `username` -/
  username : Text
  /-- `password_hash` -/
  passwordHash : Text
  /-- `enabled` -/
  enabled : ℕ
  deriving DecidableEq

/-- `UpdateProviderUserInput` -/
structure Input where
  /-- `username` -/
  username : Option Text
  /-- `password` -/
  password : Option Text
  /-- `enabled` -/
  enabled : Option Bool
  deriving DecidableEq

/-- The password, if `passwordChanged`. -/
def Input.newPassword (input : Input) : Option Text := input.password.filter fun p => p ≠ []

/-- Why a call fails. -/
inductive Failure where
  /-- an awaited call throws -/
  | thrown
  /-- the verifier that is stored is none -/
  | verifier
  /-- the new username is empty -/
  | usernameEmpty
  /-- the new username is too long -/
  | usernameLong
  /-- the new password is too long -/
  | passwordLong
  /-- another user has the name -/
  | duplicate (username : Text)
  deriving DecidableEq

/-- The texts of the errors. -/
def Failure.text : Failure → String
  | thrown => ""
  | verifier => "Provider user password verifier is invalid."
  | usernameEmpty => "Username cannot be empty."
  | usernameLong => "Username is too long."
  | passwordLong => "Password is too long."
  | duplicate username => s!"User \"{String.ofList username}\" already exists for this provider."

/-- What `crypto.randomBytes(SALT_BYTES)` draws. -/
abbrev Salt : Type := { s : Bytes // s.length = saltBytes }

/-- Where a call is, with the row that it has read and the one that it is going to write. -/
inductive Pc where
  /-- `ensureProvider` -/
  | ensureProvider
  /-- `getUser` -/
  | getUser
  /-- the duplicate check -/
  | duplicate (existing merged : Row)
  /-- the statement that writes -/
  | update (existing merged : Row)
  /-- the first statement of `syncLegacyIdentity` -/
  | syncSelect
  /-- the second one -/
  | syncUpdate
  /-- `LogService.info` -/
  | log
  /-- `getUser` again -/
  | reload
  /-- the call has returned, or has thrown -/
  | returned (failure : Option Failure)
  deriving DecidableEq

/-- A call. -/
structure Thread where
  /-- what it is given -/
  input : Input
  /-- where it is -/
  pc : Pc
  /-- *history*: it has written -/
  wrote : Bool
  deriving DecidableEq

/-- The row and the calls. -/
structure State where
  /-- the row of the user -/
  row : Row
  /-- the calls -/
  threads : List Thread
  deriving DecidableEq

/-- How what is awaited ends. -/
structure Outcome where
  /-- it throws -/
  throws : Bool
  /-- another user of the provider has the name -/
  taken : Bool
  /-- what `hashProviderPassword` draws -/
  salt : Salt

/-- What happens next. -/
inductive Action where
  /-- a call -/
  | call (input : Input)
  /-- what call `i` awaits is there -/
  | run (i : ℕ) (outcome : Outcome)

/-- Call `i` goes on to `pc`. -/
def State.goto (s : State) (i : ℕ) (t : Thread) (pc : Pc) : State :=
  { s with threads := s.threads.set i { t with pc := pc } }

variable (pbkdf2 : Text → Bytes → ℕ → ℕ → Bytes)

/-- What `updateUser` does between reading the row and the duplicate check. -/
def merge (existing : Row) (input : Input) (salt : Salt) : Except Failure Row :=
  let username := (input.username.map trim).getD existing.username
  if isProviderPasswordHash existing.passwordHash = false then .error .verifier
  else if username = [] then .error .usernameEmpty
  else if 512 < Js.length username then .error .usernameLong
  else if 4096 < Js.length (input.password.getD []) then .error .passwordLong
  else .ok {
    username := username
    passwordHash := (input.newPassword.map fun p => hashProviderPassword pbkdf2 p salt.1).getD
      existing.passwordHash
    enabled := (input.enabled.map fun b => if b then 1 else 0).getD existing.enabled }

/-- One step of call `i`, which is `t`. -/
def stepThread (s : State) (i : ℕ) (t : Thread) (o : Outcome) : Option State :=
  if o.throws then
    match t.pc with
    | .returned _ => none
    | _ => some (s.goto i t (.returned (some .thrown)))
  else match t.pc with
  | .ensureProvider => some (s.goto i t .getUser)
  | .getUser => some <|
    match merge pbkdf2 s.row t.input o.salt with
    | .error e => s.goto i t (.returned (some e))
    | .ok merged => s.goto i t (.duplicate s.row merged)
  | .duplicate existing merged => some <|
    if o.taken then s.goto i t (.returned (some (.duplicate merged.username)))
    else s.goto i t (.update existing merged)
  | .update _ merged => some <|
    -- the constraint `UNIQUE (provider_id, username)`
    if o.taken then s.goto i t (.returned (some .thrown))
    else ⟨merged, s.threads.set i { t with pc := .syncSelect, wrote := true }⟩
  | .syncSelect => some (s.goto i t .syncUpdate)
  | .syncUpdate => some (s.goto i t .log)
  | .log => some (s.goto i t .reload)
  | .reload => some (s.goto i t (.returned none))
  | .returned _ => none

/-- The step function. -/
def step (s : State) : Action → Option State
  | .call input => some { s with threads := s.threads ++ [⟨input, .ensureProvider, false⟩] }
  | .run i o => s.threads[i]?.bind fun t => stepThread pbkdf2 s i t o

/-! ## Fields -/

/-- A column, and what an input asks of it. -/
structure Field (α : Type) where
  /-- the column -/
  get : Row → α
  /-- what is asked, if it is supplied -/
  want : Input → Option (α → Prop)

/-- The username. -/
def usernameField : Field Text where
  get := Row.username
  want input := input.username.map fun username v => v = trim username

/-- The password is accepted by the verifier. -/
def passwordField : Field Text where
  get := Row.passwordHash
  want input := input.newPassword.map fun p h => verifyProviderPassword pbkdf2 p h = true

/-- Whether the user is enabled. -/
def enabledField : Field ℕ where
  get := Row.enabled
  want input := input.enabled.map fun b v => v = if b then 1 else 0

variable {α : Type}

/-- A column that nobody supplies is as it was, and one that only one call supplies has what that
call supplies when it has returned. -/
structure State.Keeps (s : State) (row₀ : Row) (F : Field α) : Prop where
  /-- nobody supplies it -/
  untouched : (∀ t ∈ s.threads, F.want t.input = none) → F.get s.row = F.get row₀
  /-- call `i` supplies it -/
  supplied : ∀ (i : ℕ) (t : Thread) (p : α → Prop), s.threads[i]? = some t →
    t.pc = .returned none → F.want t.input = some p →
    (∀ (j : ℕ) (u : Thread), j ≠ i → s.threads[j]? = some u → F.want u.input = none) →
    p (F.get s.row)

/-- No edit is lost. -/
structure State.Kept (s : State) (row₀ : Row) : Prop where
  /-- of the username -/
  username : s.Keeps row₀ usernameField
  /-- of the password -/
  password : s.Keeps row₀ (passwordField pbkdf2)
  /-- of `enabled` -/
  enabled : s.Keeps row₀ enabledField

/-- What a call has read is what is stored, in the columns that it does not supply. -/
structure UpToDate (input : Input) (existing row : Row) : Prop where
  /-- the username -/
  username : input.username = none → existing.username = row.username
  /-- the password -/
  password : input.newPassword = none → existing.passwordHash = row.passwordHash
  /-- `enabled` -/
  enabled : input.enabled = none → existing.enabled = row.enabled

/-- A call writes only what is up to date. -/
def Current (s : State) : Action → Prop
  | .run i _ => ∀ t ∈ s.threads[i]?, ∀ existing merged, t.pc = .update existing merged →
    UpToDate t.input existing s.row
  | .call _ => True

/-- A row is merged with an input, as far as a field is concerned. -/
def Field.Merged (F : Field α) (input : Input) (existing merged : Row) : Prop :=
  (F.want input = none → F.get merged = F.get existing) ∧
    ∀ p, F.want input = some p → p (F.get merged)

/-- What a call is going to write. -/
def Thread.merged (F : Field α) (t : Thread) : Prop :=
  match t.pc with
  | .duplicate existing merged => F.Merged t.input existing merged
  | .update existing merged => F.Merged t.input existing merged
  | _ => True

/-- After the statement that writes, unless the call has failed. -/
def Pc.done : Pc → Bool
  | .syncSelect => true
  | .syncUpdate => true
  | .log => true
  | .reload => true
  | .returned none => true
  | _ => false

/-- The invariant of a field. -/
structure State.Inv (s : State) (row₀ : Row) (F : Field α) : Prop where
  /-- what is merged -/
  merged : ∀ t ∈ s.threads, t.merged F
  /-- who is done has written -/
  done : ∀ t ∈ s.threads, t.pc.done = true → t.wrote = true
  /-- nobody who has written supplies it -/
  untouched : (∀ t ∈ s.threads, t.wrote = true → F.want t.input = none) → F.get s.row = F.get row₀
  /-- call `i` is the only one that has written and supplies it -/
  supplied : ∀ (i : ℕ) (t : Thread) (p : α → Prop), s.threads[i]? = some t → t.wrote = true →
    F.want t.input = some p →
    (∀ (j : ℕ) (u : Thread), j ≠ i → s.threads[j]? = some u → u.wrote = true →
      F.want u.input = none) → p (F.get s.row)

variable {pbkdf2} {s s' : State} {row₀ existing merged : Row} {F : Field α} {i : ℕ} {t : Thread}
  {pc : Pc} {input : Input} {salt : Salt}

section Merge

theorem merge_ok (h : merge pbkdf2 existing input salt = .ok merged) : merged = {
    username := (input.username.map trim).getD existing.username
    passwordHash := (input.newPassword.map fun p => hashProviderPassword pbkdf2 p salt.1).getD
      existing.passwordHash
    enabled := (input.enabled.map fun b => if b then 1 else 0).getD existing.enabled } := by
  simp only [merge] at h
  split at h
  · cases h
  · split at h
    · cases h
    · split at h
      · cases h
      · split at h
        · cases h
        · exact (Except.ok.inj h).symm

theorem usernameField_merged (h : merge pbkdf2 existing input salt = .ok merged) :
    usernameField.Merged input existing merged := by
  obtain rfl := merge_ok h
  cases hinput : input.username with
  | none => simp [usernameField, Field.Merged, hinput]
  | some username => simp [usernameField, Field.Merged, hinput]

theorem passwordField_merged (hkey : ∀ p s n k, (pbkdf2 p s n k).length = k)
    (h : merge pbkdf2 existing input salt = .ok merged) :
    (passwordField pbkdf2).Merged input existing merged := by
  obtain rfl := merge_ok h
  cases hinput : input.newPassword with
  | none => simp [passwordField, Field.Merged, hinput]
  | some password => simp [passwordField, Field.Merged, hinput, verifyProviderPassword_hash hkey salt.2]

theorem enabledField_merged (h : merge pbkdf2 existing input salt = .ok merged) :
    enabledField.Merged input existing merged := by
  obtain rfl := merge_ok h
  cases hinput : input.enabled with
  | none => simp [enabledField, Field.Merged, hinput]
  | some enabled => simp [enabledField, Field.Merged, hinput]

end Merge

namespace State.Inv

/-- A call goes on and does not write. -/
theorem goto (h : s.Inv row₀ F) (hi : s.threads[i]? = some t)
    (hmerged : Thread.merged F { t with pc := pc }) (hdone : pc.done = true → t.wrote = true) :
    (s.goto i t pc).Inv row₀ F where
  merged := forall_mem_set h.merged hmerged
  done := forall_mem_set h.done hdone
  untouched hnone := by
    refine h.untouched fun u hu hwrote => ?_
    obtain ⟨j, hj⟩ := List.mem_iff_getElem?.mp hu
    by_cases hji : j = i
    · rw [hji, hi] at hj
      obtain rfl := Option.some.inj hj
      exact hnone { t with pc := pc } (List.mem_of_getElem? (getElem?_set_of_some hi)) hwrote
    · refine hnone u (List.mem_of_getElem? (i := j) ?_) hwrote
      rw [State.goto, List.getElem?_set_ne (Ne.symm hji)]
      exact hj
  supplied := by
    -- the calls have the inputs they had
    have hback : ∀ (j : ℕ) (u : Thread), (s.goto i t pc).threads[j]? = some u →
        ∃ v, s.threads[j]? = some v ∧ v.wrote = u.wrote ∧ v.input = u.input := by
      intro j u hj
      rcases getElem?_set_cases hj with ⟨rfl, rfl⟩ | ⟨-, hj⟩
      · exact ⟨t, hi, rfl, rfl⟩
      · exact ⟨u, hj, rfl, rfl⟩
    intro j u p hj hwrote hp hothers
    obtain ⟨v, hv, hvwrote, hvinput⟩ := hback j u hj
    refine h.supplied j v p hv (hvwrote.trans hwrote) (by rw [hvinput]; exact hp) ?_
    intro k w hkj hk hwwrote
    by_cases hki : k = i
    · subst hki
      rw [hi] at hk
      obtain rfl := Option.some.inj hk
      exact hothers k { t with pc := pc } hkj (getElem?_set_of_some hi) hwwrote
    · refine hothers k w hkj ?_ hwwrote
      rw [State.goto, List.getElem?_set_ne (Ne.symm hki)]
      exact hk

/-- A call writes. -/
theorem write (h : s.Inv row₀ F) (hi : s.threads[i]? = some t)
    (hmerged : F.Merged t.input existing merged)
    (hcurrent : F.want t.input = none → F.get existing = F.get s.row) :
    State.Inv ⟨merged, s.threads.set i { t with pc := .syncSelect, wrote := true }⟩ row₀ F := by
  have hself : (s.threads.set i { t with pc := .syncSelect, wrote := true })[i]? =
      some { t with pc := .syncSelect, wrote := true } := getElem?_set_of_some hi
  have hother : ∀ (j : ℕ) (u : Thread), j ≠ i → s.threads[j]? = some u →
      (s.threads.set i { t with pc := .syncSelect, wrote := true })[j]? = some u := by
    intro j u hji hj
    rw [List.getElem?_set_ne (Ne.symm hji)]
    exact hj
  constructor
  · exact forall_mem_set h.merged trivial
  · exact forall_mem_set h.done fun _ => rfl
  · intro hnone
    have hwant : F.want t.input = none :=
      hnone { t with pc := .syncSelect, wrote := true } (List.mem_of_getElem? hself) rfl
    refine ((hmerged.1 hwant).trans (hcurrent hwant)).trans (h.untouched fun u hu hwrote => ?_)
    obtain ⟨j, hj⟩ := List.mem_iff_getElem?.mp hu
    by_cases hji : j = i
    · rw [hji, hi] at hj
      obtain rfl := Option.some.inj hj
      exact hwant
    · exact hnone u (List.mem_of_getElem? (hother j u hji hj)) hwrote
  · intro j u p hj hwrote hp hothers
    rcases getElem?_set_cases hj with ⟨rfl, rfl⟩ | ⟨hji, hj⟩
    · exact hmerged.2 p hp
    · have hwant : F.want t.input = none :=
        hothers i { t with pc := .syncSelect, wrote := true } (Ne.symm hji) hself rfl
      change p (F.get merged)
      rw [hmerged.1 hwant, hcurrent hwant]
      refine h.supplied j u p hj hwrote hp fun k v hkj hk hvwrote => ?_
      by_cases hki : k = i
      · rw [hki, hi] at hk
        obtain rfl := Option.some.inj hk
        exact hwant
      · exact hothers k v hkj (hother k v hki hk) hvwrote

/-- A call comes in. -/
theorem call (h : s.Inv row₀ F) : State.Inv
    { s with threads := s.threads ++ [⟨input, .ensureProvider, false⟩] } row₀ F where
  merged := forall_mem_append h.merged trivial
  done := forall_mem_append h.done nofun
  untouched hnone := h.untouched fun u hu => hnone u (List.mem_append_left _ hu)
  supplied := by
    intro j u p hj hwrote hp hothers
    rcases getElem?_append_cases hj with hj | rfl
    · exact h.supplied j u p hj hwrote hp fun k v hkj hk =>
        hothers k v hkj (getElem?_append_of_some hk)
    · cases hwrote

/-- What a step preserves, for a field that is merged and up to date. -/
theorem step {a : Action} (h : s.Inv row₀ F)
    (hmerge : ∀ existing merged input salt, merge pbkdf2 existing input salt = .ok merged →
      F.Merged input existing merged)
    (hcurrent : ∀ input existing row, UpToDate input existing row → F.want input = none →
      F.get existing = F.get row)
    (ha : Current s a) (hs : step pbkdf2 s a = some s') : s'.Inv row₀ F := by
  cases a with
  | call input =>
    obtain rfl := Option.some.inj hs
    exact h.call
  | run i o =>
    obtain ⟨t, hi, hrun⟩ := Option.bind_eq_some_iff.mp hs
    clear hs
    have ht := List.mem_of_getElem? hi
    have hmerged := h.merged t ht
    have hdone := h.done t ht
    unfold stepThread at hrun
    unfold Thread.merged at hmerged
    split at hrun
    · split at hrun
      · cases hrun
      · obtain rfl := Option.some.inj hrun
        exact h.goto hi trivial nofun
    split at hrun
    all_goals try obtain rfl := Option.some.inj hrun
    · exact h.goto hi trivial nofun
    · split
      · exact h.goto hi trivial nofun
      · next merged hok => exact h.goto hi (hmerge _ _ _ _ hok) nofun
    · next hpc =>
      rw [hpc] at hmerged
      split
      · exact h.goto hi trivial nofun
      · exact h.goto hi hmerged nofun
    · next existing merged hpc =>
      rw [hpc] at hmerged
      split
      · exact h.goto hi trivial nofun
      · exact h.write hi hmerged (hcurrent _ _ _ (ha t hi existing merged hpc))
    · next hpc => exact h.goto hi trivial fun _ => hdone (by rw [hpc]; rfl)
    · next hpc => exact h.goto hi trivial fun _ => hdone (by rw [hpc]; rfl)
    · next hpc => exact h.goto hi trivial fun _ => hdone (by rw [hpc]; rfl)
    · next hpc => exact h.goto hi trivial fun _ => hdone (by rw [hpc]; rfl)
    · cases hrun

theorem init : State.Inv ⟨row₀, []⟩ row₀ F where
  merged := List.forall_mem_nil _
  done := List.forall_mem_nil _
  untouched _ := rfl
  supplied i t p hi := by cases hi

theorem keeps (h : s.Inv row₀ F) : s.Keeps row₀ F where
  untouched hnone := h.untouched fun t ht _ => hnone t ht
  supplied i t p hi hpc hp hothers :=
    h.supplied i t p hi (h.done t (List.mem_of_getElem? hi) (by rw [hpc]; rfl)) hp
      fun j u hji hj _ => hothers j u hji hj

end State.Inv

/-- A run keeps a field. -/
theorem keeps_of_run (h : Run (step pbkdf2) Current ⟨row₀, []⟩ s)
    (hmerge : ∀ existing merged input salt, merge pbkdf2 existing input salt = .ok merged →
      F.Merged input existing merged)
    (hcurrent : ∀ input existing row, UpToDate input existing row → F.want input = none →
      F.get existing = F.get row) : s.Keeps row₀ F :=
  (h.invariant (fun _ _ _ hs ha hstep => State.Inv.step hs hmerge hcurrent ha hstep)
    State.Inv.init).keeps

/-- In a run in which a call writes only what is up to date, no edit is lost. -/
theorem edits_are_kept (hkey : ∀ p s n k, (pbkdf2 p s n k).length = k)
    (h : Run (step pbkdf2) Current ⟨row₀, []⟩ s) : s.Kept pbkdf2 row₀ where
  username := keeps_of_run h (fun _ _ _ _ => usernameField_merged)
    fun _ _ _ hup hnone => hup.username (Option.map_eq_none_iff.mp hnone)
  password := keeps_of_run h (fun _ _ _ _ => passwordField_merged hkey)
    fun _ _ _ hup hnone => hup.password (Option.map_eq_none_iff.mp hnone)
  enabled := keeps_of_run h (fun _ _ _ _ => enabledField_merged)
    fun _ _ _ hup hnone => hup.enabled (Option.map_eq_none_iff.mp hnone)

/-! ### Two edits -/

/-- The verifier of a user, as it may be stored. -/
def storedHash : Text :=
  "pbkdf2_sha256$210000$dGVzdC1zYWx0LTEyMzQ1Ng$Hupa5cSZRN9sT9l6L6yAEhEJJGpbXBP-m5ez_0-UY7w".toList

/-- The user. -/
def family : Row := ⟨"family".toList, storedHash, 1⟩

/-- What is awaited is there. -/
def fine : Outcome := ⟨false, false, ⟨List.replicate 16 7, rfl⟩⟩

/-- One call changes the password, another one disables the user. -/
def calls : List Action :=
  [.call ⟨none, some "n3w-secret".toList, none⟩, .call ⟨none, none, some false⟩]

/-- First the one, then the other. -/
def successive : List Action :=
  calls ++ List.replicate 8 (.run 0 fine) ++ List.replicate 8 (.run 1 fine)

/-- The first one has read the row when the second one runs. -/
def overlapping : List Action :=
  calls ++ List.replicate 2 (.run 0 fine) ++ List.replicate 8 (.run 1 fine) ++
    List.replicate 6 (.run 0 fine)

instance (input : Input) (existing row : Row) : Decidable (UpToDate input existing row) :=
  decidable_of_iff ((input.username = none → existing.username = row.username) ∧
      (input.newPassword = none → existing.passwordHash = row.passwordHash) ∧
      (input.enabled = none → existing.enabled = row.enabled))
    ⟨fun h => ⟨h.1, h.2.1, h.2.2⟩, fun h => ⟨h.1, h.2, h.3⟩⟩

/-- A test for `Current`. -/
def isCurrent (s : State) : Action → Bool
  | .run i _ => match s.threads[i]? with
    | some ⟨input, .update existing _, _⟩ => UpToDate input existing s.row
    | _ => true
  | .call _ => true

theorem isCurrent_sound (s : State) (a : Action) (h : isCurrent s a = true) : Current s a := by
  cases a with
  | call => trivial
  | run i o =>
    intro t hi existing merged hpc
    obtain ⟨input, pc, wrote⟩ := t
    obtain rfl : pc = .update existing merged := hpc
    rw [isCurrent, hi] at h
    exact of_decide_eq_true h

/-- Both edits are there. -/
theorem edits_are_kept_successive : ∃ s : State, s.Kept toyKey family ∧
    s.threads.map Thread.pc = [.returned none, .returned none] ∧ s.row.enabled = 0 := by
  have h : (exec (fun s a => if isCurrent s a then step toyKey s a else none) ⟨family, []⟩
      successive).map (fun s => (s.threads.map Thread.pc, s.row.enabled)) =
      some ([.returned none, .returned none], 0) := by
    decide +kernel
  obtain ⟨s, hs, hx⟩ := Run.of_tested isCurrent_sound h
  exact ⟨s, edits_are_kept length_toyKey hs, (Prod.mk.inj hx).1, (Prod.mk.inj hx).2⟩

/-- Both calls return, and the user is enabled. -/
theorem password_change_reenables :
    ∃ s, Run (step toyKey) (fun _ _ => True) ⟨family, []⟩ s ∧ ¬s.Kept toyKey family := by
  have h : (exec (step toyKey) ⟨family, []⟩ overlapping).map (fun s => (s.threads, s.row.enabled)) =
      some ([⟨⟨none, some "n3w-secret".toList, none⟩, .returned none, true⟩,
        ⟨⟨none, none, some false⟩, .returned none, true⟩], 1) := by
    decide +kernel
  obtain ⟨s, hs, hx⟩ := Run.of_eval (fun _ _ _ => trivial) h
  obtain ⟨hthreads, henabled⟩ := Prod.mk.inj hx
  refine ⟨s, hs, fun hkept => ?_⟩
  have hdisabled := hkept.enabled.supplied 1 ⟨⟨none, none, some false⟩, .returned none, true⟩
    (fun v => v = 0) (by rw [hthreads]; rfl) rfl rfl ?_
  · have henabled : s.row.enabled = 1 := henabled
    exact absurd (henabled.symm.trans hdisabled) (by decide)
  · intro j u hj hu
    rw [hthreads] at hu
    match j, hj with
    | 0, _ =>
      obtain rfl := Option.some.inj hu
      rfl
    | 1, hj => exact absurd rfl hj
    | j + 2, _ => cases hu

end IptvProxy.Users.Update
