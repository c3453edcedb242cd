import IptvProxy.Lib.Agents
import IptvProxy.Lib.ExpiringMap
import Mathlib.Logic.Relation

/-!
# Locks that expire

A lock server that any number of agents use: an agent enters the critical section of a key by a
set-if-absent of a fresh owner id with expiry `ttl`, and leaves it by a compare-and-delete. An
agent may also vanish (its release fails, or it crashes) without touching the lock, and a
set-if-absent may be executed for an agent that never learns of it.

The lock is not the mutual exclusion: expiry can take it away from an agent that is still inside.
What holds without any assumption on time is `Inv`: an agent that has been inside for less than
`ttl` still owns its lock. **Mutual exclusion** (`Inv.exclusive`) follows for agents that stay
inside for less than `ttl`, and a late release is harmless (`Inv.leave_other`) however late it is.
-/

namespace LeaseLock

universe u

variable {K : Type u}

/-- A critical section: its key, the owner id and when it was entered. -/
structure Held (K : Type u) : Type u where
  /-- the locked key -/
  key : K
  /-- the value of the lock -/
  owner : ℕ
  /-- when the lock was taken -/
  since : ℕ

/-- The lock server and its agents; an agent outside every critical section is `none`. -/
structure System (K : Type u) : Type u where
  /-- the clock -/
  now : ℕ
  /-- the locks, with their owners -/
  locks : ExpiringMap K ℕ
  /-- where every agent is -/
  agents : List (Option (Held K))
  /-- the next owner id -/
  nextID : ℕ

variable [DecidableEq K]

/-- The steps of the system. -/
inductive Step (ttl : ℕ) : System K → System K → Prop where
  /-- an agent takes a free lock under a fresh id -/
  | enter {s : System K} {i : ℕ} {k : K} (hi : s.agents[i]? = some none)
      (hfree : s.locks.has s.now k = false) :
      Step ttl s
        { s with
          locks := s.locks.set k s.nextID (some (s.now + ttl))
          agents := s.agents.set i (some ⟨k, s.nextID, s.now⟩)
          nextID := s.nextID + 1 }
  /-- the lock may be set for an agent that does not enter -/
  | attempt {s : System K} {k : K} :
      Step ttl s
        { s with
          locks := s.locks.setNX s.now k s.nextID (s.now + ttl)
          nextID := s.nextID + 1 }
  /-- an agent releases its lock -/
  | leave {s : System K} {i : ℕ} {h : Held K} (hi : s.agents[i]? = some (some h)) :
      Step ttl s
        { s with
          locks := s.locks.delIfEq s.now h.key h.owner
          agents := s.agents.set i none }
  /-- some agents are gone without a release, new ones are there -/
  | change {s : System K} {agents : List (Option (Held K))}
      (hsub : ∀ (i : ℕ) (h : Held K), agents[i]? = some (some h) → s.agents[i]? = some (some h)) :
      Step ttl s { s with agents := agents }
  /-- ids are used for something else -/
  | newID {s : System K} : Step ttl s { s with nextID := s.nextID + 1 }
  /-- time passes -/
  | tick {s : System K} (d : ℕ) : Step ttl s { s with now := s.now + d }

/-- No critical section was entered before `since`. -/
def NotOlder (since : ℕ) (s : System K) : Prop :=
  ∀ (i : ℕ) (h : Held K), s.agents[i]? = some (some h) → since ≤ h.since

/-- New critical sections are entered now, so none gets older than it was. -/
theorem NotOlder.run {ttl since : ℕ} {s t : System K} (h : NotOlder since s) (hle : since ≤ s.now)
    (hrun : Relation.ReflTransGen (Step ttl) s t) : NotOlder since t := by
  have hboth : since ≤ t.now ∧ NotOlder since t := by
    induction hrun with
    | refl => exact ⟨hle, h⟩
    | tail _ hs ih =>
      obtain ⟨hnow, hall⟩ := ih
      cases hs with
      | enter hi hfree =>
        refine ⟨hnow, fun j h' hj => ?_⟩
        rcases Agents.getElem?_set_cases hj with ⟨-, heq⟩ | ⟨-, hold⟩
        · cases heq
          exact hnow
        · exact hall j h' hold
      | attempt => exact ⟨hnow, hall⟩
      | leave hi =>
        refine ⟨hnow, fun j h' hj => ?_⟩
        rcases Agents.getElem?_set_cases hj with ⟨-, heq⟩ | ⟨-, hold⟩
        · cases heq
        · exact hall j h' hold
      | change hsub => exact ⟨hnow, fun j h' hj => hall j h' (hsub j h' hj)⟩
      | newID => exact ⟨hnow, hall⟩
      | tick d => exact ⟨Nat.le_trans hnow (Nat.le_add_right _ _), hall⟩
  exact hboth.2

/-- What holds whatever the agents and the clock do. -/
structure Inv (ttl : ℕ) (s : System K) : Prop where
  /-- owners of critical sections have used ids -/
  owner_lt : ∀ {i : ℕ} {h : Held K}, s.agents[i]? = some (some h) → h.owner < s.nextID
  /-- so have locks -/
  lock_lt : ∀ {k : K} {e : Expiring ℕ}, s.locks k = some e → e.value < s.nextID
  /-- two critical sections never have the same owner -/
  distinct : ∀ {i j : ℕ} {h h' : Held K}, s.agents[i]? = some (some h) →
    s.agents[j]? = some (some h') → h.owner = h'.owner → i = j
  /-- an agent that entered less than `ttl` ago owns its lock -/
  valid : ∀ {i : ℕ} {h : Held K}, s.agents[i]? = some (some h) → s.now < h.since + ttl →
    s.locks h.key = some ⟨h.owner, some (h.since + ttl)⟩

namespace Inv

variable {ttl : ℕ} {s t : System K}

omit [DecidableEq K] in
/-- A critical section in its time makes the key's lock exist. -/
theorem has_of_held (hinv : Inv ttl s) {i : ℕ} {h : Held K} (hi : s.agents[i]? = some (some h))
    (htime : s.now < h.since + ttl) : s.locks.has s.now h.key = true := by
  have hlock := hinv.valid hi htime
  have hlook : s.locks.lookup s.now h.key = some ⟨h.owner, some (h.since + ttl)⟩ := by
    rw [ExpiringMap.lookup_eq_some]
    exact ⟨hlock, by simpa [Expiring.live] using htime⟩
  simp [ExpiringMap.has, hlook]

theorem enter (hinv : Inv ttl s) {i : ℕ} {k : K}
    (hfree : s.locks.has s.now k = false) :
    Inv ttl
      { s with
        locks := s.locks.set k s.nextID (some (s.now + ttl))
        agents := s.agents.set i (some ⟨k, s.nextID, s.now⟩)
        nextID := s.nextID + 1 } := by
  -- the only new critical section is the one of agent `i`, under the fresh id
  have hcase : ∀ {j : ℕ} {h : Held K},
      (s.agents.set i (some ⟨k, s.nextID, s.now⟩))[j]? = some (some h) →
      (j = i ∧ h = ⟨k, s.nextID, s.now⟩) ∨ (j ≠ i ∧ s.agents[j]? = some (some h)) := by
    intro j h hj
    rcases Agents.getElem?_set_cases hj with ⟨hji, heq⟩ | hold
    · exact .inl ⟨hji, Option.some.inj heq⟩
    · exact .inr hold
  refine ⟨?_, ?_, ?_, ?_⟩
  · intro j h hj
    rcases hcase hj with ⟨-, rfl⟩ | ⟨-, hj⟩
    · exact Nat.lt_succ_self _
    · exact Nat.lt_succ_of_lt (hinv.owner_lt hj)
  · intro k' e he
    dsimp only at he ⊢
    by_cases hk : k' = k
    · rw [hk, ExpiringMap.set_self] at he
      cases he
      exact Nat.lt_succ_self _
    · rw [ExpiringMap.set_ne _ _ _ hk] at he
      exact Nat.lt_succ_of_lt (hinv.lock_lt he)
  · intro j j' h h' hj hj' howner
    rcases hcase hj with ⟨hji, rfl⟩ | ⟨-, hold⟩ <;>
      rcases hcase hj' with ⟨hji', rfl⟩ | ⟨-, hold'⟩
    · rw [hji, hji']
    · exact absurd (hinv.owner_lt hold') (by rw [← howner]; exact Nat.lt_irrefl _)
    · exact absurd (hinv.owner_lt hold) (by rw [howner]; exact Nat.lt_irrefl _)
    · exact hinv.distinct hold hold' howner
  · intro j h hj htime
    dsimp only at htime ⊢
    rcases hcase hj with ⟨-, rfl⟩ | ⟨-, hold⟩
    · exact ExpiringMap.set_self ..
    · -- an old section keeps its lock: its key is not `k`, which was free
      have hne : h.key ≠ k := by
        intro hk
        rw [← hk, hinv.has_of_held hold htime] at hfree
        cases hfree
      rw [ExpiringMap.set_ne _ _ _ hne]
      exact hinv.valid hold htime

theorem attempt (hinv : Inv ttl s) (k : K) :
    Inv ttl
      { s with
        locks := s.locks.setNX s.now k s.nextID (s.now + ttl)
        nextID := s.nextID + 1 } := by
  refine ⟨fun hj => Nat.lt_succ_of_lt (hinv.owner_lt hj), ?_, hinv.distinct, ?_⟩
  · intro k' e he
    dsimp only at he ⊢
    by_cases hk : k' = k
    · subst hk
      by_cases hhas : s.locks.has s.now k' = true
      · rw [ExpiringMap.setNX_of_has _ _ hhas] at he
        exact Nat.lt_succ_of_lt (hinv.lock_lt he)
      · rw [ExpiringMap.setNX, if_neg hhas, ExpiringMap.set_self] at he
        cases he
        exact Nat.lt_succ_self _
    · rw [ExpiringMap.setNX_ne _ _ _ _ hk] at he
      exact Nat.lt_succ_of_lt (hinv.lock_lt he)
  · intro j h hj htime
    dsimp only at hj htime ⊢
    by_cases hk : h.key = k
    · subst hk
      rw [ExpiringMap.setNX_of_has _ _ (hinv.has_of_held hj htime)]
      exact hinv.valid hj htime
    · rw [ExpiringMap.setNX_ne _ _ _ _ hk]
      exact hinv.valid hj htime

/-- **A late release is harmless**: releasing under an id leaves every lock with another value
alone, however late it comes. -/
theorem leave_other {e : Expiring ℕ} {h : Held K} {k : K} (hk : s.locks k = some e)
    (howner : e.value ≠ h.owner) : s.locks.delIfEq s.now h.key h.owner k = some e := by
  by_cases hkey : k = h.key
  · subst hkey
    rw [ExpiringMap.delIfEq_of_ne (by simpa [hk] using howner)]
    exact hk
  · rw [ExpiringMap.delIfEq_ne _ _ _ hkey]
    exact hk

theorem leave (hinv : Inv ttl s) {i : ℕ} {h : Held K} (hi : s.agents[i]? = some (some h)) :
    Inv ttl
      { s with
        locks := s.locks.delIfEq s.now h.key h.owner
        agents := s.agents.set i none } := by
  have hcase : ∀ {j : ℕ} {h' : Held K}, (s.agents.set i none)[j]? = some (some h') →
      j ≠ i ∧ s.agents[j]? = some (some h') := by
    intro j h' hj
    rcases Agents.getElem?_set_cases hj with ⟨-, heq⟩ | hold
    · cases heq
    · exact hold
  refine ⟨fun hj => hinv.owner_lt (hcase hj).2, ?_,
    fun hj hj' => hinv.distinct (hcase hj).2 (hcase hj').2, ?_⟩
  · intro k e he
    dsimp only at he ⊢
    unfold ExpiringMap.delIfEq at he
    split at he
    · exact hinv.lock_lt (ExpiringMap.del_eq_some he).2
    · exact hinv.lock_lt he
  · intro j h' hj htime
    obtain ⟨hne, hj⟩ := hcase hj
    refine leave_other (hinv.valid hj htime) fun howner => ?_
    exact hne (hinv.distinct hj hi howner)

omit [DecidableEq K] in
theorem change (hinv : Inv ttl s) {agents : List (Option (Held K))}
    (hsub : ∀ (i : ℕ) (h : Held K), agents[i]? = some (some h) → s.agents[i]? = some (some h)) :
    Inv ttl { s with agents := agents } :=
  ⟨fun hj => hinv.owner_lt (hsub _ _ hj), hinv.lock_lt,
    fun hj hj' => hinv.distinct (hsub _ _ hj) (hsub _ _ hj'), fun hj => hinv.valid (hsub _ _ hj)⟩

/-- Every step keeps the invariant. -/
theorem step (hinv : Inv ttl s) (h : Step ttl s t) : Inv ttl t := by
  cases h with
  | enter _ hfree => exact hinv.enter hfree
  | attempt => exact hinv.attempt _
  | leave hi => exact hinv.leave hi
  | change hsub => exact hinv.change hsub
  | newID =>
    exact ⟨fun hj => Nat.lt_succ_of_lt (hinv.owner_lt hj),
      fun he => Nat.lt_succ_of_lt (hinv.lock_lt he), hinv.distinct, hinv.valid⟩
  | tick d =>
    refine ⟨hinv.owner_lt, hinv.lock_lt, hinv.distinct, fun hj htime => hinv.valid hj ?_⟩
    exact Nat.lt_of_le_of_lt (Nat.le_add_right _ _) htime

/-- So does every run. -/
theorem run (hinv : Inv ttl s) (h : Relation.ReflTransGen (Step ttl) s t) : Inv ttl t := by
  induction h with
  | refl => exact hinv
  | tail _ hs ih => exact ih.step hs

omit [DecidableEq K] in
/-- Nobody holds a lock in an empty system. -/
theorem empty (now nextID : ℕ) : Inv ttl (⟨now, .empty, [], nextID⟩ : System K) :=
  ⟨fun h => (by cases h), fun h => (by cases h), fun h => (by cases h), fun h => (by cases h)⟩

omit [DecidableEq K] in
/-- **Mutual exclusion**: two agents inside the critical section of one key for less than `ttl`
are the same agent. -/
theorem exclusive (hinv : Inv ttl s) {i j : ℕ} {h h' : Held K}
    (hi : s.agents[i]? = some (some h)) (hj : s.agents[j]? = some (some h'))
    (hkey : h.key = h'.key) (hti : s.now < h.since + ttl) (htj : s.now < h'.since + ttl) :
    i = j := by
  have hl := hinv.valid hi hti
  have hl' := hinv.valid hj htj
  rw [← hkey, hl] at hl'
  exact hinv.distinct hi hj (congrArg Expiring.value (Option.some.inj hl'))

end Inv

end LeaseLock
