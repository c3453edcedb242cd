import Mathlib.Logic.Function.Basic
import Mathlib.Data.List.Basic

/-!
# Maps whose entries may carry a deadline

The string part of a key-value server with expiry: every entry has a value and, optionally, a
deadline. An entry whose deadline has passed is treated as missing by every command, so expiry
needs no step of its own. The commands take the current time `now`.

Times are natural numbers; a deadline `d` is passed when `d ≤ now`.
-/

universe u v

/-- A stored value with its deadline; `none` means that it never expires. -/
structure Expiring (V : Type v) where
  /-- the stored value -/
  value : V
  /-- when it expires, if it does -/
  deadline : Option ℕ
  deriving DecidableEq

/-- The entry is not expired at `now`. -/
def Expiring.live {V : Type v} (now : ℕ) (e : Expiring V) : Bool :=
  match e.deadline with
  | none => true
  | some d => decide (now < d)

/-- A map from keys to values that may expire. -/
abbrev ExpiringMap (K : Type u) (V : Type v) : Type max u v := K → Option (Expiring V)

namespace ExpiringMap

variable {K : Type u} {V : Type v}

/-- The empty map. -/
def empty : ExpiringMap K V := fun _ => none

/-- The entry a command sees at `now`. -/
def lookup (m : ExpiringMap K V) (now : ℕ) (k : K) : Option (Expiring V) :=
  (m k).filter (Expiring.live now)

/-- The key exists at `now`. -/
def has (m : ExpiringMap K V) (now : ℕ) (k : K) : Bool := (m.lookup now k).isSome

@[simp] theorem lookup_empty (now : ℕ) (k : K) : (empty : ExpiringMap K V).lookup now k = none :=
  rfl

/-- What a command sees at `now` is the stored entry, and it is live. -/
theorem lookup_eq_some {m : ExpiringMap K V} {now : ℕ} {k : K} {e : Expiring V} :
    m.lookup now k = some e ↔ m k = some e ∧ e.live now = true := by
  simp [lookup, Option.filter_eq_some_iff]

theorem lookup_of_deadline_none {m : ExpiringMap K V} {k : K} {e : Expiring V} (now : ℕ)
    (h : m k = some e) (hd : e.deadline = none) : m.lookup now k = some e := by
  rw [lookup_eq_some]
  exact ⟨h, by simp [Expiring.live, hd]⟩

/-- Expiry is for good: an entry seen later was already there. -/
theorem lookup_mono {m : ExpiringMap K V} {now now' : ℕ} {k : K} {e : Expiring V}
    (hle : now ≤ now') (h : m.lookup now' k = some e) : m.lookup now k = some e := by
  rw [lookup_eq_some] at h ⊢
  refine ⟨h.1, ?_⟩
  have hlive := h.2
  rcases hd : e.deadline with _ | d
  · simp [Expiring.live, hd]
  · simp only [Expiring.live, hd, decide_eq_true_eq] at hlive ⊢
    exact Nat.lt_of_le_of_lt hle hlive

variable [DecidableEq K]

/-- Store a value under a key, replacing what was there. -/
def set (m : ExpiringMap K V) (k : K) (v : V) (deadline : Option ℕ) : ExpiringMap K V :=
  Function.update m k (some ⟨v, deadline⟩)

/-- Delete a key. -/
def del (m : ExpiringMap K V) (k : K) : ExpiringMap K V := Function.update m k none

/-- Store a value only if the key does not exist. -/
def setNX (m : ExpiringMap K V) (now : ℕ) (k : K) (v : V) (deadline : ℕ) : ExpiringMap K V :=
  if m.has now k then m else m.set k v (some deadline)

/-- Give an existing key a new deadline. -/
def expire (m : ExpiringMap K V) (now : ℕ) (k : K) (deadline : ℕ) : ExpiringMap K V :=
  match m.lookup now k with
  | none => m
  | some e => m.set k e.value (some deadline)

/-- Remove the deadline of an existing key. -/
def persist (m : ExpiringMap K V) (now : ℕ) (k : K) : ExpiringMap K V :=
  match m.lookup now k with
  | none => m
  | some e => m.set k e.value none

/-- Delete a key if it holds the given value: the compare-and-delete of a lock release. -/
def delIfEq [DecidableEq V] (m : ExpiringMap K V) (now : ℕ) (k : K) (v : V) : ExpiringMap K V :=
  if (m.lookup now k).map Expiring.value = some v then m.del k else m

@[simp] theorem set_self (m : ExpiringMap K V) (k : K) (v : V) (d : Option ℕ) :
    m.set k v d k = some ⟨v, d⟩ := by simp [set]

@[simp] theorem set_ne (m : ExpiringMap K V) {k k' : K} (v : V) (d : Option ℕ) (h : k' ≠ k) :
    m.set k v d k' = m k' := by simp [set, h]

@[simp] theorem del_self (m : ExpiringMap K V) (k : K) : m.del k k = none := by simp [del]

@[simp] theorem del_ne (m : ExpiringMap K V) {k k' : K} (h : k' ≠ k) : m.del k k' = m k' := by
  simp [del, h]

@[simp] theorem expire_ne (m : ExpiringMap K V) (now : ℕ) {k k' : K} (d : ℕ) (h : k' ≠ k) :
    m.expire now k d k' = m k' := by
  unfold expire
  rcases m.lookup now k with _ | e
  · rfl
  · exact set_ne m _ _ h

@[simp] theorem persist_ne (m : ExpiringMap K V) (now : ℕ) {k k' : K} (h : k' ≠ k) :
    m.persist now k k' = m k' := by
  unfold persist
  rcases m.lookup now k with _ | e
  · rfl
  · exact set_ne m _ _ h

/-- Deleting only removes entries. -/
theorem del_eq_some {m : ExpiringMap K V} {k k' : K} {e : Expiring V}
    (h : m.del k k' = some e) : k' ≠ k ∧ m k' = some e := by
  by_cases hk : k' = k
  · rw [hk, del_self] at h
    cases h
  · rw [del_ne m hk] at h
    exact ⟨hk, h⟩

/-- Expiring changes at most the deadline of the key. -/
theorem expire_eq_some {m : ExpiringMap K V} {now : ℕ} {k k' : K} {d : ℕ} {e : Expiring V}
    (h : m.expire now k d k' = some e) : ∃ e₀, m k' = some e₀ ∧ e₀.value = e.value := by
  by_cases hk : k' = k
  · subst hk
    unfold expire at h
    rcases hl : m.lookup now k' with _ | e₀
    · rw [hl] at h
      exact ⟨e, h, rfl⟩
    · rw [hl] at h
      simp only [set_self, Option.some.injEq] at h
      exact ⟨e₀, (lookup_eq_some.mp hl).1, by rw [← h]⟩
  · rw [expire_ne m now d hk] at h
    exact ⟨e, h, rfl⟩

/-- An expired key has a deadline, if it is there at all. -/
theorem deadline_of_expire {m : ExpiringMap K V} {now : ℕ} {k : K} {d : ℕ} {e : Expiring V}
    (h : m.expire now k d k = some e) : e.deadline ≠ none := by
  intro hd
  unfold expire at h
  rcases hl : m.lookup now k with _ | e₀
  · rw [hl] at h
    rw [lookup_of_deadline_none now h hd] at hl
    cases hl
  · rw [hl] at h
    simp only [set_self, Option.some.injEq] at h
    rw [← h] at hd
    cases hd

/-- Persisting changes at most the deadline of the key. -/
theorem persist_eq_some {m : ExpiringMap K V} {now : ℕ} {k k' : K} {e : Expiring V}
    (h : m.persist now k k' = some e) : ∃ e₀, m k' = some e₀ ∧ e₀.value = e.value := by
  by_cases hk : k' = k
  · subst hk
    unfold persist at h
    rcases hl : m.lookup now k' with _ | e₀
    · rw [hl] at h
      exact ⟨e, h, rfl⟩
    · rw [hl] at h
      simp only [set_self, Option.some.injEq] at h
      exact ⟨e₀, (lookup_eq_some.mp hl).1, by rw [← h]⟩
  · rw [persist_ne m now hk] at h
    exact ⟨e, h, rfl⟩

theorem persist_self_of_has {m : ExpiringMap K V} {now : ℕ} {k : K} (h : m.has now k = true) :
    ∃ e, m.persist now k k = some e ∧ e.deadline = none := by
  rcases hl : m.lookup now k with _ | e
  · simp [has, hl] at h
  · refine ⟨⟨e.value, none⟩, ?_, rfl⟩
    unfold persist
    rw [hl]
    exact set_self ..

/-- `setNX` never replaces a live entry. -/
theorem setNX_of_has {m : ExpiringMap K V} {now : ℕ} {k : K} (v : V) (d : ℕ)
    (h : m.has now k = true) : m.setNX now k v d = m := by
  simp [setNX, h]

@[simp] theorem setNX_ne (m : ExpiringMap K V) (now : ℕ) {k k' : K} (v : V) (d : ℕ)
    (h : k' ≠ k) : m.setNX now k v d k' = m k' := by
  unfold setNX
  split
  · rfl
  · exact set_ne m _ _ h

@[simp] theorem delIfEq_ne [DecidableEq V] (m : ExpiringMap K V) (now : ℕ) {k k' : K} (v : V)
    (h : k' ≠ k) : m.delIfEq now k v k' = m k' := by
  unfold delIfEq
  split
  · exact del_ne m h
  · rfl

/-- **Compare-and-delete is safe**: an entry with another value survives it. -/
theorem delIfEq_of_ne [DecidableEq V] {m : ExpiringMap K V} {now : ℕ} {k : K} {v : V}
    (h : (m k).map Expiring.value ≠ some v) : m.delIfEq now k v = m := by
  unfold delIfEq
  rw [if_neg]
  intro hv
  apply h
  rcases hl : m.lookup now k with _ | e
  · simp [hl] at hv
  · rw [hl] at hv
    rw [(lookup_eq_some.mp hl).1]
    exact hv

end ExpiringMap
