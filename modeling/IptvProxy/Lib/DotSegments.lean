import Mathlib.Data.List.Infix
import Mathlib.Data.List.MinMax
import Mathlib.Order.Basic

/-!
# Resolving dot segments

A path is a list of segments. Some are skipped (`.`), some go up (`..`), all others go down.
`resolve` walks the path from a stack of segments, and going up at the root stays there.

The same by counting: a downward segment is taken back if some stretch behind it has more upward
segments than downward ones, and `climbs` is the most by which upward segments outnumber downward
ones in a stretch from the beginning. `resolve_eq` says that a walk drops as many segments of its
stack as the path climbs, and then has the segments that stand.
-/

namespace DotSegments

universe u

variable {α : Type u} (skip up : α → Bool)

/-- A segment that goes down. -/
def down (s : α) : Bool := !skip s && !up s

/-- One step of a walk. -/
def push (stack : List α) (s : α) : List α :=
  if skip s then stack else if up s then stack.dropLast else stack ++ [s]

/-- The walk. -/
def resolve (stack segments : List α) : List α := segments.foldl (push skip up) stack

/-- By how much upward segments outnumber downward ones at most, in a stretch from the beginning. -/
def climbs (segments : List α) : ℕ :=
  (segments.inits.map fun l =>
    l.countP (fun s => !skip s && up s) - l.countP (down skip up)).foldr max 0

/-- The downward segments that no stretch behind them takes back. -/
def stands : List α → List α
  | [] => []
  | s :: segments =>
    if down skip up s && climbs skip up segments = 0 then s :: stands segments
    else stands segments

variable {skip up}

@[simp] theorem resolve_nil (stack : List α) : resolve skip up stack [] = stack := rfl

theorem resolve_cons (stack : List α) (s : α) (segments : List α) :
    resolve skip up stack (s :: segments) = resolve skip up (push skip up stack s) segments := rfl

theorem resolve_append (stack xs ys : List α) :
    resolve skip up stack (xs ++ ys) = resolve skip up (resolve skip up stack xs) ys :=
  List.foldl_append

theorem foldr_max_le {l : List ℕ} {n : ℕ} : l.foldr max 0 ≤ n ↔ ∀ a ∈ l, a ≤ n := by
  induction l with
  | nil => simp
  | cons a l ih => simp [ih]

theorem climbs_le {segments : List α} {n : ℕ} :
    climbs skip up segments ≤ n ↔ ∀ l, l <+: segments →
      l.countP (fun s => !skip s && up s) ≤ l.countP (down skip up) + n := by
  simp only [climbs, foldr_max_le, List.forall_mem_map, List.mem_inits, Nat.sub_le_iff_le_add,
    Nat.add_comm n]

theorem climbs_cons_le {s : α} {segments : List α} {n : ℕ} :
    climbs skip up (s :: segments) ≤ n ↔ ∀ l, l <+: segments →
      (s :: l).countP (fun s => !skip s && up s) ≤ (s :: l).countP (down skip up) + n := by
  rw [climbs_le]
  constructor
  · exact fun h l hl => h (s :: l) (by simpa using hl)
  · intro h l hl
    rcases l with _ | ⟨c, l⟩
    · simp
    · obtain ⟨rfl, htail⟩ := List.cons_prefix_cons.mp hl
      exact h l htail

@[simp] theorem climbs_nil : climbs skip up [] = 0 := rfl

theorem climbs_skip {s : α} (hs : skip s = true) (segments : List α) :
    climbs skip up (s :: segments) = climbs skip up segments := by
  refine eq_of_forall_ge_iff fun n => ?_
  rw [climbs_cons_le, climbs_le]
  simp [hs, down]

theorem climbs_up {s : α} (hs : skip s = false) (hup : up s = true) (segments : List α) :
    climbs skip up (s :: segments) = climbs skip up segments + 1 := by
  refine eq_of_forall_ge_iff fun n => ?_
  rcases n with _ | n
  · have hnil : ¬ climbs skip up (s :: segments) ≤ 0 := by
      rw [climbs_cons_le]
      intro h
      simpa [hs, hup, down] using h [] (List.nil_prefix)
    simpa using hnil
  · rw [Nat.add_le_add_iff_right, climbs_cons_le, climbs_le]
    simp only [List.countP_cons, hs, hup, down, Bool.not_false, Bool.and_self, if_true,
      Bool.not_true, Bool.and_false, Bool.false_eq_true, if_false, Nat.add_zero]
    exact forall₂_congr fun l _ => by omega

theorem climbs_down {s : α} (hs : skip s = false) (hup : up s = false) (segments : List α) :
    climbs skip up (s :: segments) = climbs skip up segments - 1 := by
  refine eq_of_forall_ge_iff fun n => ?_
  rw [Nat.sub_le_iff_le_add, climbs_cons_le, climbs_le]
  simp only [List.countP_cons, hs, hup, down, Bool.not_false, Bool.and_self, if_true,
    Bool.and_false, Bool.false_eq_true, if_false, Nat.add_zero]
  exact forall₂_congr fun l _ => by omega

theorem climbs_of_down {segments : List α} (h : ∀ s ∈ segments, skip s = false ∧ up s = false) :
    climbs skip up segments = 0 := by
  induction segments with
  | nil => rfl
  | cons s segments ih =>
    obtain ⟨hskip, hup⟩ := h s (List.mem_cons_self ..)
    rw [climbs_down hskip hup, ih fun s hs => h s (List.mem_cons_of_mem _ hs)]

theorem stands_of_down {segments : List α} (h : ∀ s ∈ segments, skip s = false ∧ up s = false) :
    stands skip up segments = segments := by
  induction segments with
  | nil => rfl
  | cons s segments ih =>
    obtain ⟨hskip, hup⟩ := h s (List.mem_cons_self ..)
    have hrest : ∀ s ∈ segments, skip s = false ∧ up s = false :=
      fun s hs => h s (List.mem_cons_of_mem _ hs)
    rw [stands, down, hskip, hup, climbs_of_down hrest, ih hrest]
    rfl

/-- **Walking and counting**: the walk drops as many segments of the stack as the path climbs, and
then has the segments that stand. -/
theorem resolve_eq (stack segments : List α) :
    resolve skip up stack segments =
      stack.take (stack.length - climbs skip up segments) ++ stands skip up segments := by
  induction segments generalizing stack with
  | nil => simp [stands]
  | cons s segments ih =>
    rw [resolve_cons, ih]
    by_cases hskip : skip s = true
    · simp [stands, push, down, hskip, climbs_skip hskip]
    · rw [Bool.not_eq_true] at hskip
      by_cases hup : up s = true
      · have hlen : stack.dropLast.length - climbs skip up segments =
            stack.length - (climbs skip up segments + 1) := by
          rw [List.length_dropLast]
          omega
        rw [climbs_up hskip hup, ← hlen]
        simp only [push, stands, down, hskip, hup, Bool.false_eq_true, if_false, if_true,
          Bool.not_true, Bool.and_false, Bool.false_and]
        rw [List.dropLast_eq_take, List.take_take]
        congr 2
        simp
      · rw [Bool.not_eq_true] at hup
        rw [climbs_down hskip hup]
        simp only [push, stands, down, hskip, hup, Bool.false_eq_true, if_false, Bool.not_false,
          Bool.and_self, Bool.true_and, decide_eq_true_eq]
        by_cases hzero : climbs skip up segments = 0
        · have htake : (stack ++ [s]).take (stack.length + 1) = stack ++ [s] :=
            List.take_of_length_le (by simp)
          simp [hzero, htake]
        · have hle : stack.length + 1 - climbs skip up segments ≤ stack.length := by omega
          rw [if_neg hzero, List.length_append, List.length_singleton,
            List.take_append_of_le_length hle]
          congr 2
          omega

/-- A walk from the root finds the segments that stand. -/
theorem resolve_empty (segments : List α) :
    resolve skip up [] segments = stands skip up segments := by
  rw [resolve_eq, List.take_nil, List.nil_append]

end DotSegments
