import Mathlib.Data.List.TakeWhile

/-!
# Text as lines

A text is the list of its lines, joined by a separator. To trim the text, where the separator is
trimmed too, is to drop lines at its ends and to trim the first and the last line that is left
(`splitOn_trim`), so that every line of the trimmed text is a part of a line (`mem_trim`).
-/

namespace Lines

universe u

variable {α : Type u} (sep : α) (p : α → Bool)

/-- The lines without what is trimmed at the start. -/
def trimStart : List (List α) → List (List α)
  | [] => [[]]
  | [l] => [l.dropWhile p]
  | l :: l' :: ls => if l.all p then trimStart (l' :: ls) else l.dropWhile p :: l' :: ls

/-- The lines, from right to left. -/
def flip (ls : List (List α)) : List (List α) := (ls.map List.reverse).reverse

/-- The lines without what is trimmed at both ends. -/
def trim (ls : List (List α)) : List (List α) := flip (trimStart p (flip (trimStart p ls)))

variable {sep p} {l : List α} {ls : List (List α)}

theorem dropWhile_append (hsep : p sep = true) (l rest : List α) :
    (l ++ sep :: rest).dropWhile p =
      if l.all p then rest.dropWhile p else l.dropWhile p ++ sep :: rest := by
  rw [List.dropWhile_append]
  by_cases hall : l.all p = true
  · have hnil : l.dropWhile p = [] := List.dropWhile_eq_nil_iff.mpr (List.all_eq_true.mp hall)
    rw [if_pos hall, if_pos (by rw [hnil]; rfl), List.dropWhile_cons_of_pos hsep]
  · have hne : l.dropWhile p ≠ [] := by
      rw [ne_eq, List.dropWhile_eq_nil_iff]
      exact fun h => hall (List.all_eq_true.mpr h)
    rw [if_neg hall, if_neg (by simpa using hne)]

theorem mem_trimStart (h : l ∈ trimStart p ls) :
    l = [] ∨ ∃ k ∈ ls, ∃ front, k = front ++ l ∧ ∀ c ∈ front, p c = true := by
  have htrim : ∀ k : List α, ∃ front, k = front ++ k.dropWhile p ∧ ∀ c ∈ front, p c = true :=
    fun k => ⟨k.takeWhile p, List.takeWhile_append_dropWhile.symm,
      fun c hc => List.mem_takeWhile_imp hc⟩
  induction ls using trimStart.induct p with
  | case1 => exact .inl (List.mem_singleton.mp h)
  | case2 k =>
    obtain rfl := List.mem_singleton.mp h
    exact .inr ⟨k, List.mem_cons_self, htrim k⟩
  | case3 k k' ls hall ih =>
    rw [trimStart, if_pos hall] at h
    exact (ih h).imp_right fun ⟨k, hk, hfront⟩ => ⟨k, List.mem_cons_of_mem _ hk, hfront⟩
  | case4 k k' ls hall =>
    rw [trimStart, if_neg hall] at h
    rcases List.mem_cons.mp h with rfl | h
    · exact .inr ⟨k, List.mem_cons_self, htrim k⟩
    · exact .inr ⟨l, List.mem_cons_of_mem _ h, [], rfl, nofun⟩

theorem mem_flip : l ∈ flip ls ↔ l.reverse ∈ ls := by
  rw [flip, List.mem_reverse, List.mem_map]
  constructor
  · rintro ⟨k, hk, rfl⟩
    rwa [List.reverse_reverse]
  · exact fun h => ⟨_, h, List.reverse_reverse l⟩

/-- A line of the trimmed text is a part of a line, between what is trimmed. -/
theorem mem_trim (h : l ∈ trim p ls) : l = [] ∨ ∃ k ∈ ls, ∃ front back, k = front ++ l ++ back ∧
    (∀ c ∈ front, p c = true) ∧ ∀ c ∈ back, p c = true := by
  rcases mem_trimStart (mem_flip.mp h) with hnil | ⟨k, hk, back, hback, hall⟩
  · exact .inl (List.reverse_eq_nil_iff.mp hnil)
  · have hkl : k.reverse = l ++ back.reverse := by rw [hback, List.reverse_append, List.reverse_reverse]
    have hall' : ∀ c ∈ back.reverse, p c = true := fun c hc => hall c (List.mem_reverse.mp hc)
    rcases mem_trimStart (mem_flip.mp hk) with hnil | ⟨k', hk', front, hfront, hfront'⟩
    · rw [hkl, List.append_eq_nil_iff] at hnil
      exact .inl hnil.1
    · rw [hkl, ← List.append_assoc] at hfront
      exact .inr ⟨k', hk', front, _, hfront, hfront', hall'⟩

theorem sep_not_mem_trimStart (h : ∀ l ∈ ls, sep ∉ l) : ∀ l ∈ trimStart p ls, sep ∉ l := by
  intro l hl hmem
  rcases mem_trimStart hl with rfl | ⟨k, hk, front, rfl, -⟩
  · cases hmem
  · exact h _ hk (List.mem_append_right _ hmem)

theorem sep_not_mem_flip (h : ∀ l ∈ ls, sep ∉ l) : ∀ l ∈ flip ls, sep ∉ l :=
  fun _ hl hmem => h _ (mem_flip.mp hl) (List.mem_reverse.mpr hmem)

variable [BEq α] [LawfulBEq α]

/-- No line has a separator. -/
theorem sep_not_mem_splitOn (s : List α) : ∀ l ∈ s.splitOn sep, sep ∉ l := by
  induction s with
  | nil => simp
  | cons c s ih =>
    intro l hl
    rw [List.splitOn_cons_eq_if_modifyHead] at hl
    split at hl
    · rcases List.mem_cons.mp hl with rfl | hl
      · exact List.not_mem_nil
      · exact ih l hl
    · next hc =>
      rcases hsplit : s.splitOn sep with _ | ⟨first, rest⟩
      · exact absurd hsplit (List.splitOn_ne_nil _ _)
      · rw [hsplit, List.modifyHead_cons] at hl
        rw [hsplit] at ih
        rcases List.mem_cons.mp hl with rfl | hl
        · rw [List.mem_cons, not_or]
          exact ⟨fun heq => hc (by rw [heq]; exact beq_self_eq_true _), ih first List.mem_cons_self⟩
        · exact ih l (List.mem_cons_of_mem _ hl)

theorem splitOn_dropWhile (hsep : p sep = true) (h : ∀ l ∈ ls, sep ∉ l) :
    (([sep].intercalate ls).dropWhile p).splitOn sep = trimStart p ls := by
  have hpart : ∀ l : List α, sep ∉ l → sep ∉ l.dropWhile p :=
    fun l hl hmem => hl ((List.dropWhile_sublist _).mem hmem)
  induction ls using trimStart.induct p with
  | case1 => rfl
  | case2 l =>
    rw [List.intercalate_singleton, trimStart]
    exact List.splitOn_eq_singleton (hpart l (h l List.mem_cons_self))
  | case3 l l' ls hall ih =>
    rw [List.intercalate_cons_cons, List.append_assoc, List.singleton_append, dropWhile_append hsep,
      trimStart, if_pos hall, if_pos hall]
    exact ih fun k hk => h k (List.mem_cons_of_mem _ hk)
  | case4 l l' ls hall =>
    have hrest := fun k hk => h k (List.mem_cons_of_mem _ hk)
    rw [List.intercalate_cons_cons, List.append_assoc, List.singleton_append, dropWhile_append hsep,
      trimStart, if_neg hall, if_neg hall]
    rw [List.splitOn_append_cons_self_of_not_mem (hpart l (h l List.mem_cons_self)),
      List.splitOn_intercalate _ hrest (List.cons_ne_nil _ _)]

omit [BEq α] [LawfulBEq α] in
theorem intercalate_concat (ls : List (List α)) (l : List α) (h : ls ≠ []) :
    [sep].intercalate (ls ++ [l]) = [sep].intercalate ls ++ sep :: l := by
  induction ls with
  | nil => exact absurd rfl h
  | cons k ls ih =>
    rcases ls with _ | ⟨k', ls⟩
    · simp [List.intercalate_cons_cons]
    · rw [List.cons_append, List.cons_append, List.intercalate_cons_cons, ← List.cons_append,
        ih (List.cons_ne_nil _ _), List.intercalate_cons_cons]
      simp

omit [BEq α] [LawfulBEq α] in
theorem intercalate_flip (ls : List (List α)) :
    [sep].intercalate (flip ls) = ([sep].intercalate ls).reverse := by
  induction ls with
  | nil => rfl
  | cons l ls ih =>
    rcases ls with _ | ⟨l', ls⟩
    · simp [flip]
    · have hflip : flip (l :: l' :: ls) = flip (l' :: ls) ++ [l.reverse] := by simp [flip]
      rw [hflip, intercalate_concat _ _ (by simp [flip]), ih, List.intercalate_cons_cons]
      simp

theorem splitOn_reverse {s : List α} (hs : s.splitOn sep = ls) (h : ∀ l ∈ ls, sep ∉ l) :
    s.reverse.splitOn sep = flip ls := by
  have hne : flip ls ≠ [] := by
    rw [← hs, flip, ne_eq, List.reverse_eq_nil_iff, List.map_eq_nil_iff]
    exact List.splitOn_ne_nil _ _
  have hjoin : [sep].intercalate ls = s := by rw [← hs, List.intercalate_splitOn]
  rw [← hjoin, ← intercalate_flip, List.splitOn_intercalate _ (sep_not_mem_flip h) hne]

/-- **The lines of a trimmed text.** -/
theorem splitOn_trim (hsep : p sep = true) (h : ∀ l ∈ ls, sep ∉ l) :
    (((([sep].intercalate ls).dropWhile p).reverse.dropWhile p).reverse).splitOn sep =
      trim p ls := by
  have hstart := sep_not_mem_trimStart (p := p) h
  have hreverse := splitOn_reverse (splitOn_dropWhile hsep h) hstart
  have hend := splitOn_dropWhile hsep (sep_not_mem_flip hstart)
  rw [← hreverse, List.intercalate_splitOn] at hend
  rw [splitOn_reverse hend (sep_not_mem_trimStart _), trim, hreverse]
  rw [hreverse]
  exact sep_not_mem_flip hstart

end Lines
