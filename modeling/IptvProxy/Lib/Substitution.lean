import Mathlib.Data.List.Infix
import Mathlib.Tactic.Common

/-!
# Replacing a marker

`replaceAll m v s` replaces every occurrence of the marker `m` in a text, from the left. A marker
that does not contain some element cannot cross it, so a text is replaced piece by piece between
such elements (`replaceAll_append_cons`, `replaceAll_intercalate`); a piece that is the marker
becomes the value, and a piece without it stays.

A list of markers with their values is replaced one after the other (`personalize`). That is what a
replacement of all at once would be, as long as no value brings in a later marker
(`personalize_marker`).
-/

namespace Substitution

universe u

variable {α : Type u} [DecidableEq α]

/-- Replace the marker where it begins, after skipping `k` elements. -/
def replaceFrom (m v : List α) : ℕ → List α → List α
  | _, [] => []
  | k + 1, _ :: s => replaceFrom m v k s
  | 0, c :: s =>
    if m <+: c :: s then v ++ replaceFrom m v (m.length - 1) s else c :: replaceFrom m v 0 s

/-- Replace every occurrence of the marker. -/
def replaceAll (m v s : List α) : List α := replaceFrom m v 0 s

variable {m v a b s : List α} {c d : α} {k : ℕ}

omit [DecidableEq α] in
/-- What does not contain `d` does not reach beyond it. -/
theorem isPrefix_append_cons (hd : d ∉ m) : m <+: a ++ d :: b ↔ m <+: a := by
  constructor
  · intro h
    rcases List.prefix_or_prefix_of_prefix h (List.prefix_append a (d :: b)) with h' | h'
    · exact h'
    · obtain ⟨t, rfl⟩ := h'
      cases t with
      | nil => rw [List.append_nil]
      | cons e t =>
        rw [List.prefix_append_right_inj, List.cons_prefix_cons] at h
        exact absurd (List.mem_append_right a (h.1 ▸ List.mem_cons_self)) hd
  · exact fun h => h.trans (List.prefix_append a _)

theorem replaceFrom_append_cons (hm : m ≠ []) (hd : d ∉ m) (hk : k ≤ a.length) :
    replaceFrom m v k (a ++ d :: b) = replaceFrom m v k a ++ d :: replaceAll m v b := by
  induction a generalizing k with
  | nil =>
    obtain rfl := Nat.le_zero.mp hk
    have hno : ¬m <+: d :: b := by
      rw [← List.nil_append (d :: b), isPrefix_append_cons hd, List.prefix_nil]
      exact hm
    rw [List.nil_append]
    exact if_neg hno
  | cons c a ih =>
    cases k with
    | succ k => exact ih (Nat.le_of_succ_le_succ hk)
    | zero =>
      have hiff : m <+: c :: (a ++ d :: b) ↔ m <+: c :: a := isPrefix_append_cons (a := c :: a) hd
      rw [List.cons_append, replaceFrom, replaceFrom]
      by_cases hpre : m <+: c :: a
      · have hlen : m.length - 1 ≤ a.length := by
          have hle := hpre.length_le
          rw [List.length_cons] at hle
          omega
        rw [if_pos (hiff.mpr hpre), if_pos hpre, ih hlen, List.append_assoc]
      · rw [if_neg (fun h => hpre (hiff.mp h)), if_neg hpre, ih (Nat.zero_le _), List.cons_append]

/-- **Between elements that the marker does not contain, a text is replaced piece by piece.** -/
theorem replaceAll_append_cons (hm : m ≠ []) (hd : d ∉ m) :
    replaceAll m v (a ++ d :: b) = replaceAll m v a ++ d :: replaceAll m v b :=
  replaceFrom_append_cons hm hd (Nat.zero_le _)

theorem replaceFrom_length : replaceFrom m v s.length s = [] := by
  induction s with
  | nil => rfl
  | cons c s ih => exact ih

/-- The marker itself becomes the value. -/
theorem replaceAll_self (hm : m ≠ []) : replaceAll m v m = v := by
  cases m with
  | nil => exact absurd rfl hm
  | cons c m =>
    rw [replaceAll, replaceFrom, if_pos (List.prefix_refl _), List.length_cons,
      Nat.add_sub_cancel, replaceFrom_length, List.append_nil]

/-- A text without the marker stays. -/
theorem replaceAll_of_apart (h : ¬m <:+: s) : replaceAll m v s = s := by
  induction s with
  | nil => rfl
  | cons c s ih =>
    rw [replaceAll, replaceFrom, if_neg fun hpre => h hpre.isInfix]
    exact congrArg (c :: ·) (ih fun hin => h (List.infix_cons hin))

/-! ## Several markers -/

/-- Replace markers by their values, one after the other; a marker that does not occur is passed
over. -/
def personalize (replacements : List (List α × List α)) (s : List α) : List α :=
  replacements.foldl (fun out r => if r.1 <:+: out then replaceAll r.1 r.2 out else out) s

/-- None of the markers occurs. -/
def Plain (replacements : List (List α × List α)) (s : List α) : Prop :=
  ∀ r ∈ replacements, ¬r.1 <:+: s

variable {rs rs' : List (List α × List α)}

theorem personalize_cons (r : List α × List α) :
    personalize (r :: rs) s = personalize rs (replaceAll r.1 r.2 s) := by
  rw [personalize, List.foldl_cons]
  split
  · rfl
  · next h => rw [replaceAll_of_apart h]; rfl

theorem personalize_append :
    personalize (rs ++ rs') s = personalize rs' (personalize rs s) := List.foldl_append

/-- A text without markers stays. -/
theorem personalize_of_plain (h : Plain rs s) : personalize rs s = s := by
  induction rs with
  | nil => rfl
  | cons r rs ih =>
    rw [personalize_cons, replaceAll_of_apart (h r List.mem_cons_self)]
    exact ih fun r' hr' => h r' (List.mem_cons_of_mem _ hr')

/-- **A marker becomes its value**, if it holds none of the markers before it and its value none of
those behind it. -/
theorem personalize_marker (hm : m ≠ []) (hbefore : Plain rs m) (hafter : Plain rs' v) :
    personalize (rs ++ (m, v) :: rs') m = v := by
  rw [personalize_append, personalize_of_plain hbefore, personalize_cons, replaceAll_self hm,
    personalize_of_plain hafter]

/-- What may stand between the pieces: no marker contains it. -/
def Separates (rs : List (List α × List α)) (d : α) : Prop := ∀ r ∈ rs, r.1 ≠ [] ∧ d ∉ r.1

theorem personalize_append_cons (hd : Separates rs d) :
    personalize rs (a ++ d :: b) = personalize rs a ++ d :: personalize rs b := by
  induction rs generalizing a b with
  | nil => rfl
  | cons r rs ih =>
    obtain ⟨hm, hdm⟩ := hd r List.mem_cons_self
    rw [personalize_cons, personalize_cons, personalize_cons, replaceAll_append_cons hm hdm]
    exact ih fun r' hr' => hd r' (List.mem_cons_of_mem _ hr')

/-- **A text of pieces is personalized piece by piece.** -/
theorem personalize_intercalate (hd : Separates rs d) (ws : List (List α)) :
    personalize rs ([d].intercalate ws) = [d].intercalate (ws.map (personalize rs)) := by
  have hnil : personalize rs ([] : List α) = [] := by
    refine personalize_of_plain fun r hr hin => ?_
    exact (hd r hr).1 (List.infix_nil.mp hin)
  induction ws with
  | nil => exact hnil
  | cons w ws ih =>
    cases ws with
    | nil => simp [List.intercalate]
    | cons w' ws =>
      have hcons : ∀ (x y : List α) (ys : List (List α)),
          [d].intercalate (x :: y :: ys) = x ++ d :: [d].intercalate (y :: ys) := by
        intro x y ys
        rw [List.intercalate, List.intercalate, List.intersperse_cons_cons, List.flatten_cons,
          List.flatten_cons]
        rfl
      rw [hcons, personalize_append_cons hd, ih, List.map_cons, List.map_cons, List.map_cons,
        hcons]

end Substitution
