import Mathlib.Data.List.Basic

/-!
# Lists of agents

A concurrent system keeps its agents in a list: an agent is named by its position, a step replaces
one agent or adds one at the end. The lemmas below say which agent stands where afterwards.
-/

namespace Agents

universe u

variable {α : Type u} {xs : List α} {i j : ℕ} {x y : α}

/-- After replacing agent `i`, an agent is the new one or one of the others. -/
theorem getElem?_set_cases (h : (xs.set i x)[j]? = some y) :
    (j = i ∧ y = x) ∨ (j ≠ i ∧ xs[j]? = some y) := by
  rw [List.getElem?_set] at h
  split at h
  · next hij =>
    split at h
    · exact .inl ⟨hij.symm, (Option.some.inj h).symm⟩
    · cases h
  · next hij => exact .inr ⟨fun hji => hij hji.symm, h⟩

/-- After adding an agent, an agent is one of the old ones or the new one. -/
theorem getElem?_append_cases (h : (xs ++ [x])[j]? = some y) : xs[j]? = some y ∨ y = x := by
  by_cases hlt : j < xs.length
  · exact .inl (by rwa [List.getElem?_append_left hlt] at h)
  · rw [List.getElem?_append_right (Nat.le_of_not_lt hlt)] at h
    exact .inr (List.mem_singleton.mp (List.mem_of_getElem? h))

/-- After adding an agent, an agent is one of the old ones or stands at the end. -/
theorem getElem?_append_places (h : (xs ++ [x])[j]? = some y) :
    xs[j]? = some y ∨ (j = xs.length ∧ y = x) := by
  rcases Nat.lt_trichotomy j xs.length with hlt | rfl | hgt
  · exact .inl (by rwa [List.getElem?_append_left hlt] at h)
  · rw [List.getElem?_concat_length] at h
    exact .inr ⟨rfl, (Option.some.inj h).symm⟩
  · rw [List.getElem?_eq_none (by simp; omega)] at h
    cases h

/-- The old agents keep their places. -/
theorem getElem?_append_of_some {ys : List α} (h : xs[j]? = some y) : (xs ++ ys)[j]? = some y := by
  rw [List.getElem?_append_left (List.getElem?_eq_some_iff.mp h).1]
  exact h

/-- The new agent stands where the old one stood. -/
theorem getElem?_set_of_some (h : xs[i]? = some y) : (xs.set i x)[i]? = some x :=
  List.getElem?_set_self (List.getElem?_eq_some_iff.mp h).1

/-- The new agent stands there in a list that is the changed one. -/
theorem getElem?_of_eq_set {ys : List α} (hys : ys = xs.set i x) (h : xs[i]? = some y) :
    ys[i]? = some x := by
  rw [hys]
  exact getElem?_set_of_some h

/-- After changing agent `i`, an agent is the changed one or one of the others. -/
theorem getElem?_modify_cases {f : α → α} (h : (xs.modify i f)[j]? = some y) :
    ∃ x, xs[j]? = some x ∧ (j = i ∧ y = f x ∨ j ≠ i ∧ y = x) := by
  rw [List.getElem?_modify] at h
  obtain ⟨x, hx, hy⟩ := Option.map_eq_some_iff.mp h
  refine ⟨x, hx, ?_⟩
  split at hy
  · next hij => exact .inl ⟨hij.symm, hy.symm⟩
  · next hij => exact .inr ⟨fun hji => hij hji.symm, hy.symm⟩

/-- Replacing an agent by itself changes nothing. -/
theorem set_of_getElem? (h : xs[i]? = some x) : xs.set i x = xs := by
  obtain ⟨hlt, heq⟩ := List.getElem?_eq_some_iff.mp h
  rw [← heq, List.set_getElem_self]

/-- A property of all agents, after replacing one. -/
theorem forall_mem_set {p : α → Prop} (hall : ∀ y ∈ xs, p y) (hx : p x) :
    ∀ y ∈ xs.set i x, p y := by
  intro y hy
  rcases List.mem_or_eq_of_mem_set hy with h | rfl
  · exact hall y h
  · exact hx

/-- A property of all agents, after adding one. -/
theorem forall_mem_append {p : α → Prop} (hall : ∀ y ∈ xs, p y) (hx : p x) :
    ∀ y ∈ xs ++ [x], p y := by
  intro y hy
  rcases List.mem_append.mp hy with h | h
  · exact hall y h
  · obtain rfl := List.mem_singleton.mp h
    exact hx

/-! ## Counting -/

section Count

variable {p : α → Bool}

/-- Nobody is counted. -/
theorem countP_eq_zero_of_getElem? (hall : ∀ (j : ℕ) (y : α), xs[j]? = some y → p y = false) :
    xs.countP p = 0 := by
  rw [List.countP_eq_zero]
  intro y hy
  obtain ⟨j, hj⟩ := List.mem_iff_getElem?.mp hy
  rw [hall j y hj]
  exact Bool.false_ne_true

/-- Exactly agent `i` is counted. -/
theorem countP_eq_one (hi : xs[i]? = some x) (hx : p x = true)
    (hothers : ∀ (j : ℕ) (y : α), j ≠ i → xs[j]? = some y → p y = false) :
    xs.countP p = 1 := by
  induction xs generalizing i with
  | nil => cases hi
  | cons z xs ih =>
    rw [List.countP_cons]
    cases i with
    | zero =>
      obtain rfl := Option.some.inj hi
      rw [if_pos hx, countP_eq_zero_of_getElem? fun j y hj => hothers (j + 1) y (by omega) hj]
    | succ i =>
      have hz := hothers 0 z (by omega) rfl
      rw [hz, ih hi fun j y hji hj => hothers (j + 1) y (by omega) hj]
      rfl

/-- Two agents are counted. -/
theorem one_lt_countP (hi : xs[i]? = some x) (hj : xs[j]? = some y) (hij : i ≠ j)
    (hx : p x = true) (hy : p y = true) : 1 < xs.countP p := by
  induction xs generalizing i j with
  | nil => cases hi
  | cons z xs ih =>
    rw [List.countP_cons]
    cases i with
    | zero =>
      obtain rfl := Option.some.inj hi
      cases j with
      | zero => exact absurd rfl hij
      | succ j =>
        have hpos : 0 < xs.countP p :=
          List.countP_pos_iff.mpr ⟨y, List.mem_of_getElem? hj, hy⟩
        rw [if_pos hx]
        omega
    | succ i =>
      cases j with
      | zero =>
        obtain rfl := Option.some.inj hj
        have hpos : 0 < xs.countP p :=
          List.countP_pos_iff.mpr ⟨x, List.mem_of_getElem? hi, hx⟩
        rw [if_pos hy]
        omega
      | succ j =>
        have hlt := ih hi hj fun h => hij (by rw [h])
        omega

end Count

end Agents
