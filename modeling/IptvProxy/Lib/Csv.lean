import Mathlib.Data.List.Basic

/-!
# Rows of cells

A row is its cells with separators between them. A cell stands as it is, or between quotes with
every quote in it twice; it has to when it contains a quote or a separator. `read` goes through a
row, and finds the cells of every spelling (`read_row`).
-/

namespace Csv

universe u

variable {α : Type u} [DecidableEq α] (quote sep : α)

/-- Every quote twice. -/
def doubled : List α → List α
  | [] => []
  | a :: cell => if a = quote then quote :: quote :: doubled cell else a :: doubled cell

/-- How a cell is written. -/
inductive Spells (cell : List α) : List α → Prop
  | bare : quote ∉ cell → sep ∉ cell → Spells cell cell
  | quoted : Spells cell (quote :: doubled quote cell ++ [quote])

/-- How cells are written in a row. -/
inductive Row : List (List α) → List α → Prop
  | one {cell text} : Spells quote sep cell text → Row [cell] text
  | more {cell text cells rest} : Spells quote sep cell text → Row cells rest →
      Row (cell :: cells) (text ++ sep :: rest)

/-- Goes through a row, inside of quotes or not, with what has been read of the cell. A quote inside
of quotes that is followed by another one is read with it: `skip` says that this has happened. -/
def read (skip quoted : Bool) (current : List α) : List α → List (List α)
  | [] => [current]
  | a :: rest =>
    if skip then read false quoted current rest
    else if a = quote then
      if quoted = true ∧ rest.head? = some quote then read true quoted (current ++ [quote]) rest
      else read false (!quoted) current rest
    else if a = sep ∧ quoted = false then current :: read false quoted [] rest
    else read false quoted (current ++ [a]) rest

variable {quote sep} {cell text rest current : List α} {cells : List (List α)}

theorem read_bare (hquote : quote ∉ cell) (hsep : sep ∉ cell) :
    read quote sep false false current (cell ++ rest) =
      read quote sep false false (current ++ cell) rest := by
  induction cell generalizing current with
  | nil => rw [List.nil_append, List.append_nil]
  | cons a cell ih =>
    rw [List.mem_cons, not_or] at hquote hsep
    rw [List.cons_append, read, if_neg Bool.false_ne_true, if_neg (Ne.symm hquote.1),
      if_neg fun h => hsep.1 h.1.symm, ih hquote.2 hsep.2, List.append_assoc,
      List.singleton_append]

theorem read_doubled :
    read quote sep false true current (doubled quote cell ++ quote :: rest) =
      read quote sep false true (current ++ cell) (quote :: rest) := by
  induction cell generalizing current with
  | nil => rw [doubled, List.nil_append, List.append_nil]
  | cons a cell ih =>
    rw [doubled]
    by_cases ha : a = quote
    · rw [if_pos ha, List.cons_append, List.cons_append, read, if_neg Bool.false_ne_true,
        if_pos rfl, if_pos ⟨rfl, rfl⟩, read, if_pos rfl, ih, ha, List.append_assoc,
        List.singleton_append]
    · rw [if_neg ha, List.cons_append, read, if_neg Bool.false_ne_true, if_neg ha,
        if_neg fun h => Bool.false_ne_true h.2.symm, ih, List.append_assoc, List.singleton_append]

/-- A cell is read, whatever its spelling, if it does not run on behind its closing quote. -/
theorem read_spells (h : Spells quote sep cell text) (hrest : rest.head? ≠ some quote) :
    read quote sep false false [] (text ++ rest) = read quote sep false false cell rest := by
  cases h with
  | bare hquote hsep => rw [read_bare hquote hsep, List.nil_append]
  | quoted =>
    have hopen : read quote sep false false [] (quote :: (doubled quote cell ++ quote :: rest)) =
        read quote sep false true [] (doubled quote cell ++ quote :: rest) := by
      rw [read, if_neg Bool.false_ne_true, if_pos rfl, if_neg fun h => Bool.false_ne_true h.1]
      rfl
    have hclose : read quote sep false true cell (quote :: rest) =
        read quote sep false false cell rest := by
      rw [read, if_neg Bool.false_ne_true, if_pos rfl, if_neg fun h => hrest h.2]
      rfl
    rw [show quote :: doubled quote cell ++ [quote] ++ rest =
      quote :: (doubled quote cell ++ quote :: rest) by simp, hopen, read_doubled,
      List.nil_append, hclose]

/-- Every spelling of a row is read as its cells. -/
theorem read_row (hne : sep ≠ quote) (h : Row quote sep cells text) :
    read quote sep false false [] text = cells := by
  induction h with
  | @one cell text h =>
    have hread : read quote sep false false [] (text ++ []) = read quote sep false false cell [] :=
      read_spells h (by simp)
    rw [List.append_nil] at hread
    rw [hread, read]
  | more h _ ih =>
    rw [read_spells h (by simpa using hne), read, if_neg Bool.false_ne_true, if_neg hne,
      if_pos ⟨rfl, rfl⟩, ih]

theorem doubled_of_notMem (cell : List α) (h : quote ∉ cell) : doubled quote cell = cell := by
  induction cell with
  | nil => rfl
  | cons a cell ih =>
    rw [List.mem_cons, not_or] at h
    rw [doubled, if_neg (Ne.symm h.1), ih h.2]

/-- A cell without quotes can be found in the text of its row. -/
theorem Row.isInfix_of_mem (h : Row quote sep cells text) (hcell : cell ∈ cells)
    (hquote : quote ∉ cell) : cell <:+: text := by
  have hspells : ∀ {w : List α}, Spells quote sep cell w → cell <:+: w := by
    intro w hw
    cases hw with
    | bare => exact ⟨[], [], List.append_nil _⟩
    | quoted => exact ⟨[quote], [quote], by rw [doubled_of_notMem cell hquote]; rfl⟩
  induction h with
  | one h =>
    obtain rfl := List.mem_singleton.mp hcell
    exact hspells h
  | more h _ ih =>
    rcases List.mem_cons.mp hcell with rfl | hcell
    · exact (hspells h).trans ⟨[], _, rfl⟩
    · exact (ih hcell).trans (List.suffix_append_of_suffix (List.suffix_cons _ _)).isInfix

end Csv
