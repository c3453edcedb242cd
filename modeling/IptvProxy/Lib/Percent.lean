import Mathlib

/-!
# Bytes and percent-encoding

Text is a list of bytes. A percent-encoding keeps some bytes as they are, may write a space as
`+`, and writes every other byte as `%` with two upper-case hexadecimal digits. Reading accepts
both cases of digits and fails on an incomplete escape.

`unescape_escape` is the round trip; `escape_forall` says that the written text consists of kept
bytes, `+`, `%` and digits, so a separator that is not kept does not occur in it.
-/

/-- A byte. -/
abbrev Byte : Type := Fin 256

/-- A string of bytes. -/
abbrev Bytes : Type := List Byte

/-! Bytes are written as numerals, and are searched for in lists. -/

instance neZero_byte : NeZero (256 : ℕ) := ⟨by decide⟩

instance lawfulBEq_byte : LawfulBEq Byte := inferInstance

instance lawfulBEq_bytes : LawfulBEq Bytes := inferInstance

/-- The bytes of a text of ASCII characters. -/
def ascii (s : String) : Bytes := s.toList.map fun c => Fin.ofNat 256 c.toNat

namespace Percent

/-- The bytes with a role in the encodings. -/
def percent : Byte := 37
/-- `+` -/
def plus : Byte := 43
/-- a space -/
def space : Byte := 32

/-- How to write: the bytes that stay, and whether a space becomes `+`. -/
structure Mode where
  /-- this byte is not escaped -/
  keep : Byte → Bool
  /-- a space is written as `+` -/
  plusForSpace : Bool
  /-- `%` is escaped -/
  percent_escaped : keep percent = false
  /-- `+` is escaped if it stands for a space -/
  plus_escaped : plusForSpace = true → keep plus = false

/-- The digit of a number below sixteen. -/
def hexDigit (n : ℕ) : Byte := if n < 10 then Fin.ofNat 256 (48 + n) else Fin.ofNat 256 (55 + n)

/-- The number of a digit, upper or lower case. -/
def unhex (c : Byte) : Option ℕ :=
  if 48 ≤ c.val ∧ c.val ≤ 57 then some (c.val - 48)
  else if 65 ≤ c.val ∧ c.val ≤ 70 then some (c.val - 55)
  else if 97 ≤ c.val ∧ c.val ≤ 102 then some (c.val - 87)
  else none

/-- One byte, written. -/
def escapeByte (m : Mode) (c : Byte) : Bytes :=
  if m.plusForSpace && decide (c = space) then [plus]
  else if m.keep c then [c]
  else [percent, hexDigit (c.val / 16), hexDigit (c.val % 16)]

/-- A string, written. -/
def escape (m : Mode) (s : Bytes) : Bytes := s.flatMap (escapeByte m)

/-- A string, read; `plusIsSpace` reads `+` as a space. -/
def unescape (plusIsSpace : Bool) : Bytes → Option Bytes
  | [] => some []
  | [c] => if c = percent then none
    else some [if plusIsSpace && decide (c = plus) then space else c]
  | [c, d] => if c = percent then none
    else (unescape plusIsSpace [d]).map fun rest =>
      (if plusIsSpace && decide (c = plus) then space else c) :: rest
  | c :: d :: e :: rest =>
    if c = percent then
      match unhex d, unhex e with
      | some hi, some lo => (unescape plusIsSpace rest).map fun rest =>
        Fin.ofNat 256 (16 * hi + lo) :: rest
      | _, _ => none
    else (unescape plusIsSpace (d :: e :: rest)).map fun rest =>
      (if plusIsSpace && decide (c = plus) then space else c) :: rest

variable {m : Mode}

theorem unhex_hexDigit : ∀ n < 16, unhex (hexDigit n) = some n := by decide

theorem unescape_cons {p : Bool} {c : Byte} (hc : c ≠ percent) (s : Bytes) :
    unescape p (c :: s) = (unescape p s).map fun rest =>
      (if p && decide (c = plus) then space else c) :: rest := by
  rcases s with _ | ⟨d, _ | ⟨e, s⟩⟩ <;> simp [unescape, hc]

theorem unescape_escapeByte (c : Byte) (s : Bytes) :
    unescape m.plusForSpace (escapeByte m c ++ s) = (unescape m.plusForSpace s).map (c :: ·) := by
  unfold escapeByte
  split
  · next h =>
    obtain ⟨hp, rfl⟩ : m.plusForSpace = true ∧ c = space := by simpa using h
    rw [List.singleton_append, unescape_cons (by decide)]
    simp [hp]
  · split
    · next hk =>
      have hc : c ≠ percent := by
        rintro rfl
        rw [m.percent_escaped] at hk
        cases hk
      have hplus : ¬ (m.plusForSpace = true ∧ c = plus) := by
        rintro ⟨hp, rfl⟩
        rw [m.plus_escaped hp] at hk
        cases hk
      rw [List.singleton_append, unescape_cons hc]
      simp [hplus]
    · have hlt := c.isLt
      have hc : Fin.ofNat 256 (16 * (c.val / 16) + c.val % 16) = c := by
        apply Fin.ext
        simp only [Fin.ofNat_eq_cast, Fin.val_natCast]
        omega
      simp only [List.cons_append, List.nil_append, unescape, if_true,
        unhex_hexDigit _ (show c.val / 16 < 16 by omega),
        unhex_hexDigit _ (show c.val % 16 < 16 by omega), hc]

/-- **The round trip**: what is written is read back. -/
theorem unescape_escape (s : Bytes) : unescape m.plusForSpace (escape m s) = some s := by
  induction s with
  | nil => rfl
  | cons c s ih =>
    rw [escape, List.flatMap_cons, unescape_escapeByte]
    rw [escape] at ih
    simp [ih]

/-- A written string has no other bytes than these. -/
theorem escape_forall {P : Byte → Prop} (hkeep : ∀ c, m.keep c = true → P c) (hplus : P plus)
    (hpercent : P percent) (hdigit : ∀ n < 16, P (hexDigit n)) (s : Bytes) :
    ∀ c ∈ escape m s, P c := by
  intro c hc
  obtain ⟨d, -, hd⟩ := List.mem_flatMap.mp hc
  have hlt := d.isLt
  unfold escapeByte at hd
  split at hd
  · obtain rfl := List.mem_singleton.mp hd
    exact hplus
  · split at hd
    · next hk =>
      obtain rfl := List.mem_singleton.mp hd
      exact hkeep c hk
    · simp only [List.mem_cons, List.not_mem_nil, or_false] at hd
      rcases hd with rfl | rfl | rfl
      · exact hpercent
      · exact hdigit _ (by omega)
      · exact hdigit _ (by omega)

end Percent
