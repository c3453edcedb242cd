import Mathlib.Data.List.Basic

/-!
# Replacing ranges of a list

Some disjoint ranges of a list are given in increasing order, with a partial function that says by
what a range is replaced. `replaceRanges` replaces all of them at once. `spliceBack` replaces one
after the other in the list itself, from the last range to the first one, and reads a range when it
gets there.

A replacement may be shorter or longer than its range, so that everything behind it moves. What is
in front of it stays (`spliceBack_eq_append`): each range is found where it was and holds what it
held (`reads_eq`), and the result is the same (`spliceBack_eq`).
-/

universe u

namespace Splice

variable {α : Type u}

/-- What a range holds. -/
def slice (s : List α) (r : ℕ × ℕ) : List α := (s.take r.2).drop r.1

/-- Disjoint ranges in increasing order, up to a length. -/
structure Increasing (length : ℕ) (ranges : List (ℕ × ℕ)) : Prop where
  /-- each ends before the next ones start -/
  disjoint : ranges.Pairwise fun r t => r.2 ≤ t.1
  /-- none ends before it starts, or after the end -/
  within : ∀ r ∈ ranges, r.1 ≤ r.2 ∧ r.2 ≤ length

variable (f : List α → Option (List α)) (s : List α)

/-- All ranges are replaced at once: the gaps, and for each range its replacement or its text. -/
def replaceRanges : ℕ → List (ℕ × ℕ) → List α
  | start, [] => s.drop start
  | start, r :: ranges =>
    slice s (start, r.1) ++ (f (slice s r)).getD (slice s r) ++ replaceRanges r.2 ranges

/-- One range is replaced. -/
def replaceRange (r : ℕ × ℕ) (out : List α) : List α :=
  match f (slice out r) with
  | none => out
  | some replacement => out.take r.1 ++ replacement ++ out.drop r.2

/-- One range after the other is replaced, the last one first. -/
def spliceBack (ranges : List (ℕ × ℕ)) : List α := ranges.foldr (replaceRange f) s

/-- What is read in each of the ranges, when it is replaced. -/
def reads : List (ℕ × ℕ) → List (List α)
  | [] => []
  | r :: ranges => slice (spliceBack f s ranges) r :: reads ranges

variable {f s} {r : ℕ × ℕ} {ranges : List (ℕ × ℕ)} {n i j k : ℕ}

@[simp] theorem spliceBack_nil : spliceBack f s [] = s := rfl

@[simp] theorem spliceBack_cons :
    spliceBack f s (r :: ranges) = replaceRange f r (spliceBack f s ranges) := rfl

theorem Increasing.nil : Increasing n [] := ⟨List.Pairwise.nil, List.forall_mem_nil _⟩

theorem Increasing.cons (h : Increasing n ranges) (hr : r.1 ≤ r.2) (hend : r.2 ≤ n)
    (hnext : ∀ t ∈ ranges, r.2 ≤ t.1) : Increasing n (r :: ranges) where
  disjoint := List.pairwise_cons.mpr ⟨hnext, h.disjoint⟩
  within := List.forall_mem_cons.mpr ⟨⟨hr, hend⟩, h.within⟩

theorem Increasing.sublist {fewer : List (ℕ × ℕ)} (h : Increasing n ranges)
    (hfewer : fewer.Sublist ranges) : Increasing n fewer where
  disjoint := h.disjoint.sublist hfewer
  within t ht := h.within t (hfewer.mem ht)

theorem Increasing.tail (h : Increasing n (r :: ranges)) : Increasing n ranges :=
  h.sublist (List.sublist_cons_self r ranges)

/-! ## Slices -/

theorem take_append_slice (h : i ≤ j) : s.take i ++ slice s (i, j) = s.take j := by
  have hfront : (s.take j).take i = s.take i := by rw [List.take_take, Nat.min_eq_left h]
  rw [slice, ← hfront, List.take_append_drop]

theorem slice_append_drop (h : i ≤ j) : slice s (i, j) ++ s.drop j = s.drop i := by
  rw [slice, List.drop_take]
  have hback : s.drop j = (s.drop i).drop (j - i) := by
    rw [List.drop_drop, Nat.add_sub_cancel' h]
  rw [hback, List.take_append_drop]

/-- A slice of the front is one of the list. -/
theorem slice_of_append (h : r.2 ≤ s.length) (rest : List α) :
    slice (s.take r.2 ++ rest) r = slice s r := by
  have hlength : (s.take r.2).length = r.2 := List.length_take_of_le h
  rw [slice, slice, List.take_append_of_le_length (Nat.le_of_eq hlength.symm), List.take_take,
    Nat.min_self]

/-- A slice where the list goes on in this way. -/
theorem slice_of_drop {front rest : List α} (h : s.drop i = front ++ rest) :
    slice s (i, i + front.length) = front ∧ s.drop (i + front.length) = rest := by
  constructor
  · rw [slice, List.drop_take, Nat.add_sub_cancel_left, h, List.take_left']
    rfl
  · rw [← List.drop_drop, h, List.drop_left']
    rfl

theorem slice_append_slice (hij : i ≤ j) (hjk : j ≤ k) :
    slice s (i, j) ++ slice s (j, k) = slice s (i, k) := by
  have hall : s.take i ++ (slice s (i, j) ++ slice s (j, k)) = s.take i ++ slice s (i, k) := by
    rw [← List.append_assoc, take_append_slice hij, take_append_slice hjk,
      take_append_slice (Nat.le_trans hij hjk)]
  exact List.append_cancel_left hall

/-- The replacement starts with what is in front of the ranges. -/
theorem replaceRanges_eq_append (hij : i ≤ j) (hj : ∀ r ∈ ranges, j ≤ r.1) :
    replaceRanges f s i ranges = slice s (i, j) ++ replaceRanges f s j ranges := by
  cases ranges with
  | nil => exact (slice_append_drop hij).symm
  | cons r ranges =>
    rw [replaceRanges, replaceRanges, ← slice_append_slice hij (hj r List.mem_cons_self)]
    simp only [List.append_assoc]

/-! ## One range after the other -/

/-- **Step**: if the list up to the end of a range is as it was, so it is up to its start when the
range is replaced. -/
theorem replaceRange_append (hr : r.1 ≤ r.2) (hend : r.2 ≤ s.length) (rest : List α) :
    replaceRange f r (s.take r.2 ++ rest) =
      s.take r.1 ++ ((f (slice s r)).getD (slice s r) ++ rest) := by
  have hlength : (s.take r.2).length = r.2 := List.length_take_of_le hend
  rw [replaceRange, slice_of_append hend]
  cases f (slice s r) with
  | none =>
    rw [Option.getD_none, ← List.append_assoc, take_append_slice hr]
  | some replacement =>
    have hfront : (s.take r.2 ++ rest).take r.1 = s.take r.1 := by
      rw [List.take_append_of_le_length (by rw [hlength]; exact hr), List.take_take,
        Nat.min_eq_left hr]
    have hback : (s.take r.2 ++ rest).drop r.2 = rest := by
      rw [List.drop_append, hlength, Nat.sub_self, List.drop_zero,
        List.drop_eq_nil_of_le (Nat.le_of_eq hlength), List.nil_append]
    dsimp only
    rw [hfront, hback, Option.getD_some, List.append_assoc]

/-- **Run**: what is in front of the ranges stays, and behind it they are replaced. -/
theorem spliceBack_eq_append (h : Increasing s.length ranges) (hk : ∀ r ∈ ranges, k ≤ r.1) :
    spliceBack f s ranges = s.take k ++ replaceRanges f s k ranges := by
  induction ranges generalizing k with
  | nil => exact (List.take_append_drop k s).symm
  | cons r ranges ih =>
    obtain ⟨hr, hend⟩ := h.within r List.mem_cons_self
    have hnext := (List.pairwise_cons.mp h.disjoint).1
    rw [spliceBack_cons, ih h.tail hnext, replaceRange_append hr hend, replaceRanges,
      ← take_append_slice (hk r List.mem_cons_self)]
    simp only [List.append_assoc]

/-- The range in front is still within the list. -/
theorem le_length_spliceBack (h : Increasing s.length (r :: ranges)) :
    r.2 ≤ (spliceBack f s ranges).length := by
  have hend := (h.within r List.mem_cons_self).2
  rw [spliceBack_eq_append h.tail (List.pairwise_cons.mp h.disjoint).1, List.length_append,
    List.length_take_of_le hend]
  exact Nat.le_add_right _ _

/-- **From back to front is at once.** -/
theorem spliceBack_eq (h : Increasing s.length ranges) :
    spliceBack f s ranges = replaceRanges f s 0 ranges :=
  spliceBack_eq_append h fun _ _ => Nat.zero_le _

/-- Each range still holds what it held. -/
theorem reads_eq (h : Increasing s.length ranges) : reads f s ranges = ranges.map (slice s) := by
  induction ranges with
  | nil => rfl
  | cons r ranges ih =>
    have hnext := (List.pairwise_cons.mp h.disjoint).1
    rw [reads, List.map_cons, ih h.tail, spliceBack_eq_append h.tail hnext,
      slice_of_append (h.within r List.mem_cons_self).2]

end Splice
