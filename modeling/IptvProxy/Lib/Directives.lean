import Mathlib.Data.List.TakeWhile

/-!
# Directives of OpenVPN

How OpenVPN reads a configuration. A line is a list of tokens, which may be in quotes or have
backslashes; the first one is the directive, and two dashes in front of it are ignored. A comment
starts with `#` or `;` where a token would start. A line that is a tag opens an inline block, which
runs to the line with the closing tag.

`tokens_of_plain` is what a line says whose first word has none of these spellings (`Spelled`).
-/

namespace Directives

/-- `isspace` -/
def isBlank (c : Char) : Bool := (9 ≤ c.toNat && c.toNat ≤ 13) || c.toNat = 32

/-- Where the lexer is. -/
inductive Mode where
  /-- between two tokens -/
  | start
  /-- in a token without quotes -/
  | plain
  /-- in double quotes -/
  | double
  /-- in single quotes -/
  | single
  deriving DecidableEq

/-- `parse_line`; `backslash` says that there was one, and `parm` is the token so far. -/
def lex : Mode → (backslash : Bool) → (parm : List Char) → List Char → Option (List (List Char))
  | .start, false, _, [] => some []
  | .plain, false, parm, [] => some [parm]
  | _, _, _, [] => none
  | .start, backslash, parm, c :: s =>
    if backslash = false ∧ c = '\\' then lex .start true parm s
    else if isBlank c then lex .start false [] s
    else if c = '#' ∨ c = ';' then some []
    else if backslash = false ∧ c = '"' then lex .double false [] s
    else if backslash = false ∧ c = '\'' then lex .single false [] s
    else lex .plain false [c] s
  | .plain, backslash, parm, c :: s =>
    if backslash = false ∧ c = '\\' then lex .plain true parm s
    else if backslash = false ∧ isBlank c then (lex .start false [] s).map (parm :: ·)
    else lex .plain false (parm ++ [c]) s
  | .double, backslash, parm, c :: s =>
    if backslash = false ∧ c = '\\' then lex .double true parm s
    else if backslash = false ∧ c = '"' then (lex .start false [] s).map (parm :: ·)
    else lex .double false (parm ++ [c]) s
  | .single, _, parm, c :: s =>
    if c = '\'' then (lex .start false [] s).map (parm :: ·)
    else lex .single false (parm ++ [c]) s

/-- The tokens of a line; none if a quote is not closed. -/
def tokens (line : List Char) : Option (List (List Char)) := lex .start false [] line

/-- Without two dashes in front. -/
def bypassDoubledash (token : List Char) : List Char :=
  if 3 ≤ token.length ∧ token.take 2 = ['-', '-'] then token.drop 2 else token

/-- The directive of a line. -/
def directive (line : List Char) : Option (List Char) :=
  (tokens line).bind fun ts => ts.head?.map bypassDoubledash

/-- The closing tag of the inline block that a line opens. -/
def opens (line : List Char) : Option (List Char) :=
  match tokens line with
  | some [token] =>
    let tag := bypassDoubledash token
    if tag.head? = some '<' ∧ tag.getLast? = some '>' then some ('<' :: '/' :: tag.drop 1) else none
  | _ => none

/-- The line ends the inline block. -/
def closes (close line : List Char) : Bool := close.isPrefixOf (line.dropWhile isBlank)

/-- The lines outside inline blocks, from within a block or outside. -/
def outside : Option (List Char) → List (List Char) → List (List Char)
  | _, [] => []
  | some close, line :: lines =>
    if closes close line then outside none lines else outside (some close) lines
  | none, line :: lines =>
    match opens line with
    | some close => outside (some close) lines
    | none => line :: outside none lines

/-- The first word of a line. -/
def word (line : List Char) : List Char := (line.dropWhile isBlank).takeWhile fun c => !isBlank c

/-- The first word has quotes, a backslash or dashes. -/
def Spelled (line : List Char) : Prop :=
  (word line).head? = some '"' ∨ (word line).head? = some '\'' ∨ (word line).take 2 = ['-', '-'] ∨
    '\\' ∈ word line

instance (line : List Char) : Decidable (Spelled line) :=
  inferInstanceAs (Decidable (_ ∨ _ ∨ _ ∨ _))

variable {close : Option (List Char)} {line parm : List Char} {lines : List (List Char)}

theorem mem_of_mem_outside (h : line ∈ outside close lines) : line ∈ lines := by
  induction lines generalizing close with
  | nil => cases close <;> cases h
  | cons l lines ih =>
    cases close with
    | some close =>
      rw [outside] at h
      split at h
      · exact List.mem_cons_of_mem _ (ih h)
      · exact List.mem_cons_of_mem _ (ih h)
    | none =>
      rw [outside] at h
      split at h
      · exact List.mem_cons_of_mem _ (ih h)
      · rcases List.mem_cons.mp h with rfl | h
        · exact List.mem_cons_self
        · exact List.mem_cons_of_mem _ (ih h)

theorem lex_plain (h : '\\' ∉ line.takeWhile fun c => !isBlank c) :
    ∀ ts, lex .plain false parm line = some ts →
      ts.head? = some (parm ++ line.takeWhile fun c => !isBlank c) := by
  induction line generalizing parm with
  | nil =>
    intro ts hts
    rw [lex] at hts
    obtain rfl := Option.some.inj hts
    simp
  | cons c line ih =>
    intro ts hts
    cases hc : isBlank c with
    | true =>
      have hne : c ≠ '\\' := by
        rintro rfl
        exact absurd hc (by decide)
      simp only [lex, hne, hc, and_false, if_false, if_true, and_self] at hts
      obtain ⟨rest, -, rfl⟩ := Option.map_eq_some_iff.mp hts
      simp [hc]
    | false =>
      rw [List.takeWhile_cons_of_pos (by rw [hc]; rfl), List.mem_cons, not_or] at h
      simp only [lex, Ne.symm h.1, hc, and_false, if_false, Bool.false_eq_true] at hts
      rw [List.takeWhile_cons_of_pos (by rw [hc]; rfl), ih h.2 ts hts]
      simp

/-- **A line without such spellings**: its directive is its first word. -/
theorem directive_of_plain (hplain : ¬Spelled line) {d : List Char} (hd : directive line = some d) :
    d = word line ∧ word line ≠ [] := by
  rw [Spelled, not_or, not_or, not_or] at hplain
  obtain ⟨hdouble, hsingle, hdashes, hbackslash⟩ := hplain
  obtain ⟨ts, hts, hhead⟩ := Option.bind_eq_some_iff.mp hd
  obtain ⟨token, htoken, rfl⟩ := Option.map_eq_some_iff.mp hhead
  have hgoal : token = word line ∧ word line ≠ [] := by
    rw [word] at hdouble hsingle hbackslash ⊢
    rw [tokens] at hts
    clear hd hhead hdashes
    induction line with
    | nil =>
      rw [lex] at hts
      obtain rfl := Option.some.inj hts
      cases htoken
    | cons c line ih =>
      cases hc : isBlank c with
      | true =>
        have hne : c ≠ '\\' := by
          rintro rfl
          exact absurd hc (by decide)
        rw [List.dropWhile_cons_of_pos hc] at hdouble hsingle hbackslash ⊢
        simp only [lex, hne, and_false, if_false, hc, if_true] at hts
        exact ih hdouble hsingle hbackslash hts
      | false =>
        rw [List.dropWhile_cons_of_neg (by rw [hc]; decide),
          List.takeWhile_cons_of_pos (by rw [hc]; rfl)] at hdouble hsingle hbackslash ⊢
        rw [List.head?_cons, Option.some.injEq] at hdouble hsingle
        rw [List.mem_cons, not_or] at hbackslash
        simp only [lex, Ne.symm hbackslash.1, hdouble, hsingle, hc, and_false, if_false,
          Bool.false_eq_true] at hts
        split at hts
        · obtain rfl := Option.some.inj hts
          cases htoken
        · rw [lex_plain hbackslash.2 ts hts] at htoken
          exact ⟨(Option.some.inj htoken).symm, List.cons_ne_nil _ _⟩
  obtain ⟨rfl, hne⟩ := hgoal
  rw [bypassDoubledash, if_neg fun h => hdashes h.2]
  exact ⟨rfl, hne⟩

end Directives
