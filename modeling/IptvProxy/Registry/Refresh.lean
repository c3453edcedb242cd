import IptvProxy.Lib.Agents
import IptvProxy.Lib.Transition
import IptvProxy.Xtream.Provider

/-!
# The provider registry

`Registry` of `internal/provider/registry.go`. `Refresh` reads the admin database over HTTP and
stores what it got under the mutex; `Snapshot` hands out the stored list and refreshes an empty
one. The database is a sequence of versions, of which one is current.

The request of a `Refresh` is outside the mutex, so a `Refresh` that was slow may be overtaken: one
that has read a later version takes the mutex before it. Then a change that was answered for is
undone (`old_version_returns`). If every `Refresh` that is overtaken fails, the registry does not go
back (`registry_goes_forward`).

`lastRefresh`, which nothing reads, is left out, and the ticker of `Start` is a caller of `Refresh`
like any other.
-/

namespace IptvProxy.Registry

open Agents Transition Xtream

/-- A provider as the admin API lists it. -/
structure Listed extends Provider where
  /-- `Enabled` -/
  enabled : ℤ
  deriving DecidableEq

/-- The errors of `Refresh`. -/
inductive Failure where
  /-- the request failed -/
  | request
  /-- the answer has another status than 200 -/
  | status (code : ℕ)
  /-- the answer cannot be decoded -/
  | decode
  /-- the admin API reports an error -/
  | reported (message : String)
  deriving DecidableEq

/-- The texts; those of the HTTP client and of the decoder follow the colon. -/
def Failure.text : Failure → String
  | request => "load provider registry: "
  | status code => s!"load provider registry: HTTP {code}"
  | decode => "decode provider registry: "
  | reported message => message

/-- What the admin API answers: nothing, or a status and a body. A body that can be decoded has
`success`, `error` and, as `data`, the current version of the database. -/
inductive Answer where
  | none
  | http (status : ℕ) (body : Option (Bool × String))
  deriving DecidableEq

/-- What `Refresh` makes of an answer, before it looks at `data`. -/
def Answer.failure : Answer → Option Failure
  | none => some .request
  | http status body =>
    if status ≠ 200 then some (.status status)
    else match body with
      | .none => some .decode
      | some (success, error) =>
        if success then .none
        else some (.reported (if error = "" then "unknown error" else error))

/-- The providers that are stored. -/
def enabledOnly (data : List Listed) : List Listed := data.filter fun p => p.enabled = 1

/-- How a call ends. -/
inductive Result where
  /-- `nil` of `Refresh` -/
  | ok
  /-- an error -/
  | error (e : Failure)
  /-- the list of `Snapshot` -/
  | providers (ps : List Listed)
  deriving DecidableEq

/-- Where a call is. The flag says that `Snapshot` called `Refresh`. -/
inductive Pc where
  /-- `Refresh`: the request is under way -/
  | request (snapshot : Bool)
  /-- `Refresh`: the section under the mutex, with the data of version `read` -/
  | store (snapshot : Bool) (data : List Listed) (read : ℕ)
  /-- `Refresh` returns `nil` -/
  | refreshed (snapshot : Bool)
  /-- `Snapshot`: the first look at the list -/
  | snapshot
  /-- `Snapshot`: the look after its `Refresh` -/
  | reread
  /-- the call has returned -/
  | returned (r : Result)
  deriving DecidableEq

/-- A call of `Refresh` or `Snapshot`. -/
structure Thread where
  /-- *history*: the version that was current when its `Refresh` started -/
  started : ℕ
  /-- *history*: the version that its `Refresh` has read and stored -/
  stored : Option ℕ
  /-- where it is -/
  pc : Pc
  deriving DecidableEq

/-- The database, the registry and the calls. -/
structure State where
  /-- the current version of the database -/
  version : ℕ
  /-- `providers` -/
  providers : List Listed
  /-- *history*: the version `providers` comes from -/
  stored : Option ℕ
  /-- the calls -/
  threads : List Thread
  deriving DecidableEq

/-- `NewRegistry` -/
def init : State := ⟨0, [], none, []⟩

/-- What happens next. -/
inductive Action where
  /-- an administrator changes the database -/
  | change
  /-- somebody calls `Refresh` -/
  | refresh
  /-- somebody calls `Snapshot` -/
  | snapshot
  /-- a step of call `i`; a request gets this answer -/
  | run (i : ℕ) (answer : Answer)
  deriving DecidableEq

/-- Call `i` becomes `t`. -/
def State.set (s : State) (i : ℕ) (t : Thread) : State := { s with threads := s.threads.set i t }

/-- A new call. -/
def State.call (s : State) (pc : Pc) : State :=
  { s with threads := s.threads ++ [⟨s.version, none, pc⟩] }

variable (versions : ℕ → List Listed)

/-- One step of call `i`, which is `t`. -/
def stepThread (s : State) (i : ℕ) (t : Thread) (answer : Answer) : Option State :=
  match t.pc with
  | .request snapshot => some <| match answer.failure with
    | some e => s.set i { t with pc := .returned (.error e) }
    | none => s.set i { t with pc := .store snapshot (versions s.version) s.version }
  | .store snapshot data read =>
    some { s.set i { t with stored := some read, pc := .refreshed snapshot } with
      providers := enabledOnly data
      stored := some read }
  | .refreshed snapshot => some (s.set i { t with pc := if snapshot then .reread else .returned .ok })
  | .snapshot => some <|
    if s.providers ≠ [] then s.set i { t with pc := .returned (.providers s.providers) }
    else s.set i { t with started := s.version, pc := .request true }
  | .reread => some (s.set i { t with pc := .returned (.providers s.providers) })
  | .returned _ => none

/-- The step function. -/
def step (s : State) : Action → Option State
  | .change => some { s with version := s.version + 1 }
  | .refresh => some (s.call (.request false))
  | .snapshot => some (s.call .snapshot)
  | .run i answer => s.threads[i]?.bind fun t => stepThread versions s i t answer

/-! ## Going forward -/

/-- A `Refresh` that has read this version has been overtaken: another one read a later version,
and has already had the mutex. -/
def Overtaken (s : State) (read : ℕ) : Prop := ∃ u ∈ s.threads, ∃ v ∈ u.stored, read < v

/-- No `Refresh` that has been overtaken stores its list. -/
def InOrder (s : State) : Action → Prop
  | .run i _ => ∀ t snapshot data read, s.threads[i]? = some t → t.pc = .store snapshot data read →
    ¬Overtaken s read
  | _ => True

/-- One call. -/
structure Thread.Ok (s : State) (t : Thread) : Prop where
  /-- it started before now -/
  started : t.started ≤ s.version
  /-- what it has read is a version from after its start -/
  read : ∀ snapshot data read, t.pc = .store snapshot data read →
    data = versions read ∧ t.started ≤ read ∧ read ≤ s.version
  /-- the list in the registry is not older than the one that it has stored -/
  stored : ∀ v ∈ t.stored, t.started ≤ v ∧ ∃ w, s.stored = some w ∧ v ≤ w
  /-- a `Refresh` that ends well has stored a list -/
  returned : t.pc = .returned .ok → t.stored.isSome
  /-- so has one that is about to -/
  refreshed : ∀ snapshot, t.pc = .refreshed snapshot → t.stored.isSome

/-- The invariant. -/
structure State.Inv (s : State) : Prop where
  /-- each call -/
  threads : ∀ t ∈ s.threads, t.Ok versions s
  /-- the registry holds a version -/
  providers : ∀ v, s.stored = some v → s.providers = enabledOnly (versions v)
  /-- a `Refresh` inside `Snapshot` has not stored before -/
  fresh : ∀ t ∈ s.threads, t.pc = .snapshot → t.stored = none

variable {versions} {s s' : State} {i : ℕ} {t : Thread}

namespace Thread.Ok

/-- Time passes for a call: the database and the registry go forward. -/
theorem mono (h : t.Ok versions s) (hversion : s.version ≤ s'.version)
    (hstored : ∀ v ∈ t.stored, ∀ w, s.stored = some w → v ≤ w → ∃ w', s'.stored = some w' ∧ v ≤ w') :
    t.Ok versions s' where
  started := Nat.le_trans h.started hversion
  read snapshot data read hpc := by
    obtain ⟨hdata, hle, hread⟩ := h.read snapshot data read hpc
    exact ⟨hdata, hle, Nat.le_trans hread hversion⟩
  stored v hv := by
    obtain ⟨hle, w, hw, hvw⟩ := h.stored v hv
    exact ⟨hle, hstored v hv w hw hvw⟩
  returned := h.returned
  refreshed := h.refreshed

/-- The same, if the registry is as it was. -/
theorem mono_version (h : t.Ok versions s) (hversion : s.version ≤ s'.version)
    (hstored : s'.stored = s.stored) : t.Ok versions s' :=
  h.mono hversion fun _ _ w hw hle => ⟨w, hstored.trans hw, hle⟩

/-- A call goes on to `pc` without reading or storing. -/
theorem goto (h : t.Ok versions s) {pc : Pc} (hstore : ∀ b data read, pc ≠ .store b data read)
    (hreturned : pc = .returned .ok → t.stored.isSome) (hrefreshed : ∀ b, pc ≠ .refreshed b) :
    ({ t with pc := pc } : Thread).Ok versions s where
  started := h.started
  read b data read hpc := absurd hpc (hstore b data read)
  stored := h.stored
  returned := hreturned
  refreshed b hpc := absurd hpc (hrefreshed b)

/-- A `Refresh` starts. -/
theorem fresh (hstarted : t.started ≤ s.version) (hstored : t.stored = none)
    (hpc : (∃ b, t.pc = .request b) ∨ t.pc = .snapshot) : t.Ok versions s where
  started := hstarted
  read b data read h := by simp [h] at hpc
  stored v hv := by
    rw [hstored] at hv
    cases hv
  returned h := by simp [h] at hpc
  refreshed b h := by simp [h] at hpc

end Thread.Ok

namespace State.Inv

/-- A call goes on and leaves the registry as it is. -/
theorem set (h : s.Inv versions) (ht : t.Ok versions s)
    (hfresh : t.pc = .snapshot → t.stored = none) : (s.set i t).Inv versions where
  threads := forall_mem_set
    (fun u hu => (h.threads u hu).mono_version (Nat.le_refl _) rfl)
    (ht.mono_version (Nat.le_refl _) rfl)
  providers := h.providers
  fresh := forall_mem_set h.fresh hfresh

theorem call (h : s.Inv versions) {pc : Pc} (hpc : (∃ b, pc = .request b) ∨ pc = .snapshot) :
    (s.call pc).Inv versions where
  threads := forall_mem_append
    (fun u hu => (h.threads u hu).mono_version (Nat.le_refl _) rfl)
    (.fresh (Nat.le_refl _) rfl hpc)
  providers := h.providers
  fresh := forall_mem_append h.fresh fun _ => rfl

/-- A call stores what it has read. -/
theorem store (h : s.Inv versions) (hi : s.threads[i]? = some t) {snapshot : Bool}
    {data : List Listed} {read : ℕ} (hpc : t.pc = .store snapshot data read)
    (horder : ¬Overtaken s read) :
    State.Inv versions
      { s.set i { t with stored := some read, pc := .refreshed snapshot } with
        providers := enabledOnly data
        stored := some read } := by
  have ht := h.threads t (List.mem_of_getElem? hi)
  obtain ⟨rfl, hle, -⟩ := ht.read snapshot data read hpc
  constructor
  · refine forall_mem_set (fun u hu => ?_) ?_
    · exact (h.threads u hu).mono (Nat.le_refl _) fun v hv _ _ _ =>
        ⟨read, rfl, Nat.le_of_not_lt fun hlt => horder ⟨u, hu, v, hv, hlt⟩⟩
    · refine ⟨ht.started, ?_, ?_, fun _ => rfl, fun _ _ => rfl⟩
      · rintro _ _ _ ⟨⟩
      · rintro v ⟨⟩
        exact ⟨hle, read, rfl, Nat.le_refl _⟩
  · rintro v ⟨⟩
    rfl
  · apply forall_mem_set h.fresh
    rintro ⟨⟩

theorem step {a : Action} (h : s.Inv versions) (ha : InOrder s a)
    (hs : step versions s a = some s') : s'.Inv versions := by
  cases a with
  | change =>
    obtain rfl := Option.some.inj hs
    exact ⟨fun u hu => (h.threads u hu).mono_version (Nat.le_succ _) rfl, h.providers, h.fresh⟩
  | refresh =>
    obtain rfl := Option.some.inj hs
    exact h.call (.inl ⟨false, rfl⟩)
  | snapshot =>
    obtain rfl := Option.some.inj hs
    exact h.call (.inr rfl)
  | run i answer =>
    obtain ⟨t, hi, hs⟩ := Option.bind_eq_some_iff.mp hs
    have hmem := List.mem_of_getElem? hi
    have ht := h.threads t hmem
    rw [stepThread] at hs
    split at hs
    · next snapshot hpc =>
      obtain rfl := Option.some.inj hs
      split
      · apply h.set (ht.goto _ _ _) <;> simp
      · refine h.set ⟨ht.started, ?_, ht.stored, ?_, ?_⟩ ?_
        · rintro _ _ _ ⟨⟩
          exact ⟨rfl, ht.started, Nat.le_refl _⟩
        all_goals simp
    · next snapshot data read hpc =>
      obtain rfl := Option.some.inj hs
      exact h.store hi hpc (ha t snapshot data read hi hpc)
    · next snapshot hpc =>
      obtain rfl := Option.some.inj hs
      have hstored := ht.refreshed snapshot hpc
      cases snapshot <;> apply h.set (ht.goto _ _ _) <;> simp [hstored]
    · next hpc =>
      obtain rfl := Option.some.inj hs
      split
      · apply h.set (ht.goto _ _ _) <;> simp
      · refine h.set (.fresh (Nat.le_refl _) ?_ (.inl ⟨true, rfl⟩)) ?_
        · exact h.fresh t hmem hpc
        · rintro ⟨⟩
    · next hpc =>
      obtain rfl := Option.some.inj hs
      apply h.set (ht.goto _ _ _) <;> simp
    · cases hs

end State.Inv

theorem inv_of_run (h : Run (step versions) InOrder init s) : s.Inv versions := by
  refine h.invariant (I := State.Inv versions) (fun s a s' hs ha hstep => hs.step ha hstep) ?_
  constructor
  · rintro _ ⟨⟩
  · rintro _ ⟨⟩
  · rintro _ ⟨⟩

/-! ## The result -/

/-- A call that hands out a list has just looked at the registry. -/
theorem handed_out {j : ℕ} {u u' : Thread} {answer : Answer} {ps : List Listed}
    (hj : s.threads[j]? = some u) (hs : stepThread versions s j u answer = some s')
    (hj' : s'.threads[j]? = some u') (hret : u'.pc = .returned (.providers ps)) :
    ps = s.providers := by
  have hself : ∀ pc, (s.threads.set j { u with pc := pc })[j]? = some u' → u'.pc = pc := by
    rintro pc h
    rw [getElem?_set_of_some hj] at h
    exact (congrArg Thread.pc (Option.some.inj h)).symm
  rw [stepThread] at hs
  split at hs
  · next snapshot hpc =>
    obtain rfl := Option.some.inj hs
    split at hj' <;> rw [hself _ hj'] at hret <;> cases hret
  · next snapshot data read hpc =>
    obtain rfl := Option.some.inj hs
    have hu := Option.some.inj ((getElem?_set_of_some hj).symm.trans hj')
    rw [← hu] at hret
    cases hret
  · next snapshot hpc =>
    obtain rfl := Option.some.inj hs
    rw [hself _ hj'] at hret
    cases snapshot <;> cases hret
  · next hpc =>
    obtain rfl := Option.some.inj hs
    split at hj'
    · rw [hself _ hj'] at hret
      cases hret
      rfl
    · have hu := Option.some.inj ((getElem?_set_of_some hj).symm.trans hj')
      rw [← hu] at hret
      cases hret
  · next hpc =>
    obtain rfl := Option.some.inj hs
    rw [hself _ hj'] at hret
    cases hret
    rfl
  · cases hs

/-- **The registry does not go back.** In a run in which no `Refresh` stores its list that has been
overtaken by one with a later version: when the `Refresh` of a call has stored its list, and all the
more when the call has returned `nil`, whatever `Snapshot` hands out from then on is the list of a
version that is not older than the one that was current when that `Refresh` started. -/
theorem registry_goes_forward {j : ℕ} {u u' : Thread} {answer : Answer} {ps : List Listed}
    (h : Run (step versions) InOrder init s) (hi : s.threads[i]? = some t)
    (ht : t.pc = .returned .ok ∨ t.stored.isSome) (hj : s.threads[j]? = some u)
    (hstep : step versions s (.run j answer) = some s') (hj' : s'.threads[j]? = some u')
    (hret : u'.pc = .returned (.providers ps)) :
    ∃ v, t.started ≤ v ∧ ps = enabledOnly (versions v) := by
  have hinv := inv_of_run h
  have hok := hinv.threads t (List.mem_of_getElem? hi)
  obtain ⟨v, hv⟩ := Option.isSome_iff_exists.mp (ht.elim hok.returned id)
  obtain ⟨hle, w, hw, hvw⟩ := hok.stored v hv
  obtain ⟨u₀, hu₀, hs⟩ := Option.bind_eq_some_iff.mp hstep
  obtain rfl := Option.some.inj (hj.symm.trans hu₀)
  refine ⟨w, Nat.le_trans hle hvw, ?_⟩
  rw [handed_out hj hs hj' hret, hinv.providers w hw]

/-- A provider that an administrator disables. -/
def disabledLater : ℕ → List Listed
  | 0 => [⟨⟨[1], [2], [3], [4], [5], [], 1, 1⟩, 1⟩]
  | _ => [⟨⟨[1], [2], [3], [4], [5], [], 1, 1⟩, 0⟩]

/-- The answer that has the data. -/
def loaded : Answer := .http 200 (some (true, ""))

/-- `Refresh` runs before and after the change. -/
def refreshedTwice : List Action :=
  [.refresh, .run 0 loaded, .run 0 loaded, .run 0 loaded, .change, .refresh, .run 1 loaded,
    .run 1 loaded, .run 1 loaded, .snapshot, .run 2 loaded, .run 2 loaded, .run 2 loaded,
    .run 2 loaded]

/-- A test for `InOrder`. -/
def inOrder (s : State) : Action → Bool
  | .run i _ => (s.threads[i]?.map Thread.pc).all fun
    | .store _ _ read => s.threads.all fun u => u.stored.all fun v => decide (v ≤ read)
    | _ => true
  | _ => true

theorem inOrder_sound (s : State) (a : Action) (h : inOrder s a = true) : InOrder s a := by
  cases a with
  | run i answer =>
    rintro t snapshot data read hi hpc ⟨u, hu, v, hv, hlt⟩
    rw [inOrder, hi, Option.map_some, hpc] at h
    have hle := List.all_eq_true.mp h u hu
    rw [hv, Option.all_some, decide_eq_true_eq] at hle
    exact absurd hlt (Nat.not_lt.mpr hle)
  | _ => trivial

/-- The provider is gone then. -/
theorem registry_goes_forward_disabled :
    ∃ s, Run (step disabledLater) InOrder init s ∧
      s.threads.map Thread.pc = [.returned .ok, .returned .ok, .reread] ∧
      ∀ s' u' ps, step disabledLater s (.run 2 .none) = some s' → s'.threads[2]? = some u' →
        u'.pc = .returned (.providers ps) → ps = [] := by
  have h : (exec (fun s a => if inOrder s a then step disabledLater s a else none) init
      refreshedTwice).map State.threads =
      some [⟨0, some 0, .returned .ok⟩, ⟨1, some 1, .returned .ok⟩, ⟨1, some 1, .reread⟩] := by
    decide +kernel
  obtain ⟨s, hrun, hthreads⟩ := Run.of_tested inOrder_sound h
  refine ⟨s, hrun, by rw [hthreads]; rfl, fun s' u' ps hstep hj' hret => ?_⟩
  have hi : s.threads[1]? = some ⟨1, some 1, .returned .ok⟩ := by rw [hthreads]; rfl
  have hj : s.threads[2]? = some ⟨1, some 1, .reread⟩ := by rw [hthreads]; rfl
  obtain ⟨v, hv, rfl⟩ := registry_goes_forward hrun hi (.inl rfl) hj hstep hj' hret
  -- every version from the change on has the provider disabled
  cases v with
  | zero => exact absurd hv (by decide)
  | succ v => rfl

/-! ## The stale store -/

/-- The `Refresh` that has read before the change stores last. -/
def storedLast : List Action :=
  [.refresh, .run 0 loaded, .change, .refresh, .run 1 loaded, .run 1 loaded, .run 1 loaded,
    .run 0 loaded, .snapshot, .run 2 .none]

/-- The change was answered for, and `Snapshot` hands out the list from before it. -/
theorem old_version_returns :
    ∃ s, Run (step disabledLater) (fun _ _ => True) init s ∧
      s.threads[1]? = some ⟨1, some 1, .returned .ok⟩ ∧
      s.threads[2]?.map Thread.pc = some (.returned (.providers (disabledLater 0))) ∧
      ∀ v, 1 ≤ v → disabledLater 0 ≠ enabledOnly (disabledLater v) := by
  have h : (exec (step disabledLater) init storedLast).map State.threads =
      some [⟨0, some 0, .refreshed false⟩, ⟨1, some 1, .returned .ok⟩,
        ⟨1, none, .returned (.providers (disabledLater 0))⟩] := by
    decide +kernel
  obtain ⟨s, hrun, hthreads⟩ := Run.of_eval (fun _ _ _ => trivial) h
  refine ⟨s, hrun, by rw [hthreads]; rfl, by rw [hthreads]; rfl, fun v hv => ?_⟩
  cases v with
  | zero => exact absurd hv (by decide)
  | succ v => simp [disabledLater, enabledOnly]

end IptvProxy.Registry
