import Mathlib.Data.List.Basic
import Mathlib.Data.List.Infix
import Mathlib.Tactic.Common

/-!
# Pages behind a cursor

Rows with positions, in their order, are read in pages: the first rows behind a position (`page`).
A page leaves out no row between the position and its own end (`mem_page`), and it reaches the
newest row, or as many positions further as it has rows (`le_newest_page`).
-/

namespace Cursor

universe u

variable {ρ : Type u} (pos : ρ → ℕ)

/-- The greatest position, and zero without rows. -/
def newest (rows : List ρ) : ℕ := rows.foldr (fun x n => max (pos x) n) 0

/-- The rows are in the order of their positions. -/
def Sorted (rows : List ρ) : Prop := rows.Pairwise fun x y => pos x < pos y

/-- The first `n` rows behind a position. -/
def page (n c : ℕ) (rows : List ρ) : List ρ := (rows.filter fun x => c < pos x).take n

variable {pos} {rows : List ρ} {x : ρ} {n c : ℕ}

@[simp] theorem newest_nil : newest pos ([] : List ρ) = 0 := rfl

@[simp] theorem newest_cons : newest pos (x :: rows) = max (pos x) (newest pos rows) := rfl

theorem le_newest (hx : x ∈ rows) : pos x ≤ newest pos rows := by
  induction rows with
  | nil => cases hx
  | cons y rows ih =>
    rw [newest_cons]
    rcases List.mem_cons.mp hx with rfl | hx
    · exact le_max_left _ _
    · exact (ih hx).trans (le_max_right _ _)

theorem newest_le (h : ∀ x ∈ rows, pos x ≤ c) : newest pos rows ≤ c := by
  induction rows with
  | nil => exact Nat.zero_le c
  | cons y rows ih =>
    rw [newest_cons]
    exact max_le (h y List.mem_cons_self) (ih fun x hx => h x (List.mem_cons_of_mem _ hx))

theorem newest_append (rows' : List ρ) :
    newest pos (rows ++ rows') = max (newest pos rows) (newest pos rows') := by
  induction rows with
  | nil => simp
  | cons y rows ih => rw [List.cons_append, newest_cons, newest_cons, ih, max_assoc]

theorem mem_of_mem_page (hx : x ∈ page pos n c rows) : x ∈ rows ∧ c < pos x := by
  have hfilter := List.mem_filter.mp (List.mem_of_mem_take hx)
  exact ⟨hfilter.1, by simpa using hfilter.2⟩

/-- **A page has no gaps**: a row behind the position and not behind the page stands in it. -/
theorem mem_page (h : Sorted pos rows) (hx : x ∈ rows) (hc : c < pos x)
    (hle : pos x ≤ newest pos (page pos n c rows)) : x ∈ page pos n c rows := by
  have hsplit := List.take_append_drop n (rows.filter fun x => decide (c < pos x))
  have hmem : x ∈ rows.filter fun x => decide (c < pos x) :=
    List.mem_filter.mpr ⟨hx, by simpa using hc⟩
  rw [← hsplit, List.mem_append] at hmem
  refine hmem.resolve_right fun hdrop => ?_
  have hsorted : Sorted pos (rows.filter fun x => decide (c < pos x)) :=
    h.sublist List.filter_sublist
  rw [Sorted, ← hsplit, List.pairwise_append] at hsorted
  have hlt : newest pos (page pos n c rows) ≤ pos x - 1 :=
    newest_le fun y hy => Nat.le_sub_one_of_lt (hsorted.2.2 y hy x hdrop)
  omega

/-- Sorted rows behind a position reach as many positions further as there are rows. -/
theorem length_le_newest (h : Sorted pos rows) (hc : ∀ x ∈ rows, c < pos x) :
    c + rows.length ≤ max c (newest pos rows) := by
  induction rows generalizing c with
  | nil => simp
  | cons y rows ih =>
    obtain ⟨hy, hrest⟩ := List.pairwise_cons.mp h
    have hnext := ih hrest hy
    have hcy := hc y List.mem_cons_self
    rw [newest_cons, List.length_cons]
    omega

/-- **A page reaches the newest row**, or as many positions further as it may have rows. -/
theorem le_newest_page (h : Sorted pos rows) :
    min (newest pos rows) (c + n) ≤ max c (newest pos (page pos n c rows)) := by
  by_cases hn : (rows.filter fun x => decide (c < pos x)).length ≤ n
  · have hpage : page pos n c rows = rows.filter fun x => decide (c < pos x) :=
      List.take_of_length_le hn
    refine (min_le_left _ _).trans (newest_le fun x hx => ?_)
    by_cases hc : c < pos x
    · refine (le_newest ?_).trans (le_max_right _ _)
      rw [hpage]
      exact List.mem_filter.mpr ⟨hx, by simpa using hc⟩
    · exact (Nat.not_lt.mp hc).trans (le_max_left _ _)
  · have hlength : (page pos n c rows).length = n := by
      rw [page, List.length_take]
      omega
    have hsorted : Sorted pos (page pos n c rows) :=
      h.sublist ((List.take_sublist _ _).trans List.filter_sublist)
    have hle := length_le_newest hsorted (c := c) fun x hx => (mem_of_mem_page hx).2
    rw [hlength] at hle
    exact (min_le_right _ _).trans hle

end Cursor
