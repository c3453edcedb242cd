import IptvProxy.Lib.Percent

/-!
# Texts that JSON can hold

The JSON of a text holds characters. A byte that is not part of a character in UTF-8 is written as
U+FFFD, and that is what is read back. `jsonText_eq_self_iff` says that the texts that come back are
the valid ones.
-/

namespace Utf8

/-- The bytes of the first character, if it is valid UTF-8. -/
def runeLength : Bytes → Option ℕ
  | [] => none
  | c :: s =>
    let tail := s.map Fin.val
    let continues (low high n : ℕ) : Bool :=
      n ≤ tail.length && low ≤ tail.headD 0 && tail.headD 0 ≤ high &&
        (tail.take n).all fun d => 128 ≤ d && d ≤ 191
    if c.val < 128 then some 1
    else if 194 ≤ c.val ∧ c.val ≤ 223 then if continues 128 191 1 then some 2 else none
    else if 224 ≤ c.val ∧ c.val ≤ 239 then
      let low := if c.val = 224 then 160 else 128
      let high := if c.val = 237 then 159 else 191
      if continues low high 2 then some 3 else none
    else if 240 ≤ c.val ∧ c.val ≤ 244 then
      let low := if c.val = 240 then 144 else 128
      let high := if c.val = 244 then 143 else 191
      if continues low high 3 then some 4 else none
    else none

/-- Every byte is part of a character. The first `n` bytes belong to the character before. -/
def validFrom : ℕ → Bytes → Bool
  | _, [] => true
  | n + 1, _ :: s => validFrom n s
  | 0, c :: s =>
    match runeLength (c :: s) with
    | some n => validFrom (n - 1) s
    | none => false

/-- `utf8.Valid` -/
def Valid (s : Bytes) : Prop := validFrom 0 s = true

instance (s : Bytes) : Decidable (Valid s) := inferInstanceAs (Decidable (_ = _))

/-- The text that is read back from the JSON of a text: a byte that is not part of a character
becomes U+FFFD. The first `n` bytes belong to the character before. -/
def jsonTextFrom : ℕ → Bytes → Bytes
  | _, [] => []
  | n + 1, c :: s => c :: jsonTextFrom n s
  | 0, c :: s =>
    match runeLength (c :: s) with
    | some n => c :: jsonTextFrom (n - 1) s
    | none => [239, 191, 189] ++ jsonTextFrom 0 s

/-- `json.Unmarshal` after `json.Marshal` -/
def jsonText (s : Bytes) : Bytes := jsonTextFrom 0 s

/-- Nothing gets shorter. -/
theorem length_le_jsonTextFrom (n : ℕ) (s : Bytes) : s.length ≤ (jsonTextFrom n s).length := by
  induction s generalizing n with
  | nil => exact Nat.zero_le _
  | cons c s ih =>
    cases n with
    | succ n => exact Nat.succ_le_succ (ih n)
    | zero =>
      rw [jsonTextFrom]
      split
      · exact Nat.succ_le_succ (ih _)
      · have := ih 0
        simp only [List.length_cons, List.length_append, List.length_nil]
        omega

theorem jsonTextFrom_eq_iff (n : ℕ) (s : Bytes) :
    jsonTextFrom n s = s ↔ validFrom n s = true := by
  induction s generalizing n with
  | nil => exact iff_of_true rfl rfl
  | cons c s ih =>
    cases n with
    | succ n => rw [jsonTextFrom, validFrom, List.cons_inj_right, ih n]
    | zero =>
      rw [jsonTextFrom, validFrom]
      split
      · rw [List.cons_inj_right, ih]
      · refine iff_of_false (fun heq => ?_) Bool.false_ne_true
        have hlength := congrArg List.length heq
        have := length_le_jsonTextFrom 0 s
        simp only [List.length_cons, List.length_append, List.length_nil] at hlength
        omega

/-- **What comes back.** -/
theorem jsonText_eq_self_iff {s : Bytes} : jsonText s = s ↔ Valid s := jsonTextFrom_eq_iff 0 s

end Utf8
