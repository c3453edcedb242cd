import Mathlib.Data.List.DropRight

/-!
# Words

The words of a list are its longest parts of elements that satisfy `p`. `joined` puts a separator
between any two of them, and `squeeze` is what a program does that goes through the list and puts a
separator in the place of everything else that stands between two words. Without the separator at
its end, this is `joined` (`rdropWhile_squeeze`).

`joined` is a normal form. If it is cut off behind some elements, what is left is one as well,
unless its last element is a separator (`joined_take_iff`).
-/

universe u

namespace Words

variable {α : Type u} (p : α → Bool) (sep : α)

/-- The longest parts that consist of elements with `p`. -/
def words (s : List α) : List (List α) := (s.splitOnP fun a => !p a).filter fun w => !w.isEmpty

/-- The words with one separator between any two of them. -/
def joined (s : List α) : List α := [sep].intercalate (words p s)

/-- Other elements, as many as there are, become one separator. The flag says that it has been
written. -/
def squeeze : Bool → List α → List α
  | _, [] => []
  | written, a :: s =>
    if p a then a :: squeeze false s
    else if written then squeeze true s
    else sep :: squeeze true s

variable {p sep} {s t : List α} {a : α} {written : Bool}

/-! ## Words -/

theorem words_append_cons (h : p a = false) : words p (s ++ a :: t) = words p s ++ words p t := by
  rw [words, List.splitOnP_append_cons _ _ (by rw [h]; rfl), List.filter_append, ← words, ← words]

theorem words_cons (h : p a = false) : words p (a :: s) = words p s :=
  words_append_cons (s := []) h

variable {q : α → Bool}

theorem words_dropWhile (hq : ∀ a, q a = true → p a = false) (s : List α) :
    words p (s.dropWhile q) = words p s := by
  induction s with
  | nil => rfl
  | cons a s ih =>
    rw [List.dropWhile_cons]
    split
    · next ha => rw [ih, words_cons (hq a ha)]
    · rfl

theorem words_rdropWhile (hq : ∀ a, q a = true → p a = false) (s : List α) :
    words p (s.rdropWhile q) = words p s := by
  induction s using List.reverseRecOn with
  | nil => rfl
  | append_singleton s a ih =>
    rw [List.rdropWhile_concat]
    split
    · next ha =>
      rw [ih, words_append_cons (hq a ha)]
      exact (List.append_nil _).symm
    · rfl

theorem intercalate_cons (w : List α) (ws : List (List α)) :
    [sep].intercalate (w :: ws) = w ++ ws.flatMap (sep :: ·) := by
  induction ws generalizing w with
  | nil => rw [List.intercalate_singleton, List.flatMap_nil, List.append_nil]
  | cons v ws ih => rw [List.intercalate_cons_cons, ih, List.flatMap_cons]; simp

/-! ## Going through the list -/

@[simp] theorem squeeze_nil : squeeze p sep written [] = [] := rfl

theorem squeeze_cons_pos (h : p a = true) :
    squeeze p sep written (a :: s) = a :: squeeze p sep false s := if_pos h

theorem squeeze_true_cons (h : p a = false) :
    squeeze p sep true (a :: s) = squeeze p sep true s := by
  rw [squeeze, if_neg (by rw [h]; exact Bool.false_ne_true), if_pos rfl]

theorem squeeze_false_cons (h : p a = false) :
    squeeze p sep false (a :: s) = sep :: squeeze p sep true s := by
  rw [squeeze, if_neg (by rw [h]; exact Bool.false_ne_true), if_neg Bool.false_ne_true]

theorem length_squeeze_le : (squeeze p sep written s).length ≤ s.length := by
  induction s generalizing written with
  | nil => exact Nat.le_refl 0
  | cons a s ih =>
    rw [squeeze]
    split
    · exact Nat.succ_le_succ ih
    · split
      · exact Nat.le_succ_of_le ih
      · exact Nat.succ_le_succ ih

/-- A second time it changes nothing. -/
theorem squeeze_idem (hsep : p sep = false) (written : Bool) (s : List α) :
    squeeze p sep written (squeeze p sep written s) = squeeze p sep written s := by
  induction s generalizing written with
  | nil => rfl
  | cons a s ih =>
    cases ha : p a with
    | true => rw [squeeze_cons_pos ha, squeeze_cons_pos ha, ih]
    | false =>
      cases written with
      | true => rw [squeeze_true_cons ha, ih]
      | false => rw [squeeze_false_cons ha, squeeze_false_cons hsep, ih]

/-- What it does not change has only such parts in front. -/
theorem squeeze_of_append (h : squeeze p sep written (s ++ t) = s ++ t) :
    squeeze p sep written s = s := by
  induction s generalizing written with
  | nil => rfl
  | cons a s ih =>
    rw [List.cons_append] at h
    cases ha : p a with
    | true =>
      rw [squeeze_cons_pos ha] at h ⊢
      rw [ih (List.cons.inj h).2]
    | false =>
      cases written with
      | true =>
        -- an element is missing
        rw [squeeze_true_cons ha] at h
        have hle := @length_squeeze_le α p sep (s ++ t) true
        rw [h, List.length_cons] at hle
        omega
      | false =>
        rw [squeeze_false_cons ha] at h
        obtain ⟨hhead, hrest⟩ := List.cons.inj h
        rw [squeeze_false_cons ha, ih hrest, hhead]

theorem rdropWhile_cons (h : q a = false ∨ s.rdropWhile q ≠ []) :
    (a :: s).rdropWhile q = a :: s.rdropWhile q := by
  rw [List.rdropWhile, List.reverse_cons, List.dropWhile_append]
  split
  · next hempty =>
    have hnil : s.rdropWhile q = [] := by
      rw [List.rdropWhile, List.isEmpty_iff.mp hempty, List.reverse_nil]
    rcases h with ha | hne
    · rw [List.dropWhile_cons_of_neg (by rw [ha]; exact Bool.false_ne_true), hnil]
      rfl
    · exact absurd hnil hne
  · rw [List.reverse_append]
    rfl

variable [DecidableEq α]

theorem dropWhile_squeeze (hsep : p sep = false) (written : Bool) (s : List α) :
    (squeeze p sep written s).dropWhile (· = sep) = squeeze p sep true s := by
  induction s generalizing written with
  | nil => rfl
  | cons a s ih =>
    cases ha : p a with
    | true =>
      have hne : a ≠ sep := fun h => by rw [h, hsep] at ha; cases ha
      rw [squeeze_cons_pos ha, squeeze_cons_pos ha, List.dropWhile_cons_of_neg (by simpa using hne)]
    | false =>
      rw [squeeze_true_cons ha]
      cases written with
      | true => rw [squeeze_true_cons ha, ih]
      | false => rw [squeeze_false_cons ha, List.dropWhile_cons_of_pos (by simp), ih]

/-- **What it makes of a list**, without the separator at the end: if it has written a separator,
the words, and if it is within a word, the rest of it, and a separator and a word for each of the
others. -/
theorem rdropWhile_squeeze_cases (hsep : p sep = false) {w : List α} {ws : List (List α)}
    (h : s.splitOnP (fun a => !p a) = w :: ws) :
    (squeeze p sep true s).rdropWhile (· = sep) =
        [sep].intercalate ((w :: ws).filter fun w => !w.isEmpty) ∧
      (squeeze p sep false s).rdropWhile (· = sep) =
        w ++ (ws.filter fun w => !w.isEmpty).flatMap (sep :: ·) := by
  induction s generalizing w ws with
  | nil =>
    rw [List.splitOnP_nil] at h
    obtain ⟨rfl, rfl⟩ := List.cons.inj h
    exact ⟨rfl, rfl⟩
  | cons a s ih =>
    rw [List.splitOnP_cons_eq_if_modifyHead] at h
    obtain ⟨v, vs, hs⟩ := List.exists_cons_of_ne_nil (List.splitOnP_ne_nil (fun a => !p a) s)
    obtain ⟨htrue, hfalse⟩ := ih hs
    cases ha : p a with
    | true =>
      have hne : decide (a = sep) = false :=
        decide_eq_false fun hsame => by rw [hsame, hsep] at ha; cases ha
      rw [ha, hs, Bool.not_true, if_neg Bool.false_ne_true] at h
      obtain ⟨rfl, rfl⟩ := List.cons.inj h
      rw [squeeze_cons_pos ha, squeeze_cons_pos ha,
        @rdropWhile_cons α _ a (fun b => decide (b = sep)) (.inl hne), hfalse,
        List.filter_cons_of_pos rfl, intercalate_cons]
      exact ⟨rfl, rfl⟩
    | false =>
      rw [ha, hs, Bool.not_false, if_pos rfl] at h
      obtain ⟨rfl, rfl⟩ := List.cons.inj h
      rw [squeeze_true_cons ha, squeeze_false_cons ha, List.filter_cons_of_neg (by simp)]
      refine ⟨htrue, ?_⟩
      rw [List.nil_append]
      cases hwords : (v :: vs).filter fun w => !w.isEmpty with
      | nil =>
        rw [hwords] at htrue
        rw [List.rdropWhile_eq_nil_iff.mpr, List.flatMap_nil]
        exact List.forall_mem_cons.mpr
          ⟨decide_eq_true rfl, List.rdropWhile_eq_nil_iff.mp htrue⟩
      | cons u us =>
        have hu : u ≠ [] := by
          have hmem : u ∈ (v :: vs).filter fun w => !w.isEmpty := by
            rw [hwords]
            exact List.mem_cons_self
          rintro rfl
          cases (List.mem_filter.mp hmem).2
        rw [hwords, intercalate_cons] at htrue
        rw [rdropWhile_cons (.inr (by rw [htrue]; simp [hu])), htrue, List.flatMap_cons,
          List.cons_append]

/-- Without the separator at the end, it is the words. -/
theorem rdropWhile_squeeze (hsep : p sep = false) (s : List α) :
    (squeeze p sep true s).rdropWhile (· = sep) = joined p sep s := by
  obtain ⟨w, ws, h⟩ := List.exists_cons_of_ne_nil (List.splitOnP_ne_nil (fun a => !p a) s)
  rw [(rdropWhile_squeeze_cases hsep h).1, joined, words, h]

/-! ## The normal form -/

/-- The front of a normal form loses the separator at its end. -/
theorem joined_take (hsep : p sep = false) (n : ℕ) :
    joined p sep ((joined p sep s).take n) = ((joined p sep s).take n).rdropWhile (· = sep) := by
  obtain ⟨t, ht⟩ : (joined p sep s).take n <+: squeeze p sep true s := by
    rw [← rdropWhile_squeeze hsep]
    exact (List.take_prefix ..).trans (List.rdropWhile_prefix ..)
  have hfixed : squeeze p sep true ((joined p sep s).take n) = (joined p sep s).take n := by
    refine @squeeze_of_append α p sep _ t true ?_
    rw [ht, squeeze_idem hsep]
  rw [← rdropWhile_squeeze hsep, hfixed]

/-- **The front of a normal form is one**, unless its last element is a separator. -/
theorem joined_take_iff (hsep : p sep = false) (n : ℕ) :
    joined p sep ((joined p sep s).take (n + 1)) = (joined p sep s).take (n + 1) ↔
      (joined p sep s)[n]? ≠ some sep := by
  rw [joined_take hsep]
  cases hn : (joined p sep s)[n]? with
  | none =>
    have hle := List.getElem?_eq_none_iff.mp hn
    rw [List.take_of_length_le (Nat.le_succ_of_le hle), ← rdropWhile_squeeze hsep]
    exact iff_of_true (List.rdropWhile_idempotent ..) nofun
  | some a =>
    obtain ⟨hlt, ha⟩ := List.getElem?_eq_some_iff.mp hn
    rw [List.take_succ_eq_append_getElem hlt, ha]
    rw [List.rdropWhile_concat]
    by_cases hsame : a = sep
    · rw [if_pos (decide_eq_true hsame)]
      refine iff_of_false (fun h => ?_) (fun h => h (congrArg some hsame))
      have hlength := congrArg List.length h
      have hle := (List.rdropWhile_prefix (fun a => decide (a = sep))
        (l := (joined p sep s).take n)).length_le
      rw [List.length_append, List.length_singleton] at hlength
      omega
    · rw [if_neg (by simpa using hsame)]
      exact iff_of_true rfl fun h => hsame (Option.some.inj h)

end Words
