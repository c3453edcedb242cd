import IptvProxy.Lib.Js

/-!
# Letters and white space

What Go and JavaScript do with the characters of a text. White space is defined for all characters,
upper and lower case for ASCII; what the runtimes do with other letters is a parameter
(`Unicode`).
-/

namespace GoText

open Js

/-- An ASCII text. -/
def IsAscii (s : Text) : Prop := ∀ c ∈ s, c.toNat < 128

instance (s : Text) : Decidable (IsAscii s) :=
  List.decidableBAll (fun c : Char => c.toNat < 128) s

/-- The ASCII letters in lower case. -/
def lowerAscii (s : Text) : Text := s.map Char.toLower

/-- What the runtimes do with letters. -/
structure Unicode where
  /-- `strings.ToLower` -/
  goLower : Text → Text
  /-- `strings.EqualFold` -/
  equalFold : Text → Text → Bool
  /-- `toLowerCase` -/
  jsLower : Text → Text
  /-- on ASCII -/
  goLower_ascii : ∀ s, IsAscii s → goLower s = lowerAscii s
  /-- on ASCII -/
  equalFold_ascii : ∀ s t, IsAscii s → IsAscii t →
    (equalFold s t = true ↔ lowerAscii s = lowerAscii t)
  /-- on ASCII -/
  jsLower_ascii : ∀ s, IsAscii s → jsLower s = lowerAscii s

/-- `unicode.IsSpace` -/
def isSpaceGo (c : Char) : Bool :=
  (9 ≤ c.toNat && c.toNat ≤ 13) || c.toNat = 0x20 || c.toNat = 0x85 || c.toNat = 0xA0 ||
    c.toNat = 0x1680 || (0x2000 ≤ c.toNat && c.toNat ≤ 0x200A) || c.toNat = 0x2028 ||
    c.toNat = 0x2029 || c.toNat = 0x202F || c.toNat = 0x205F || c.toNat = 0x3000

/-- `strings.TrimSpace` -/
def trimSpace (s : Text) : Text := ((s.dropWhile isSpaceGo).reverse.dropWhile isSpaceGo).reverse

/-- `strings.TrimPrefix(s, "/")` -/
def trimPrefix : Text → Text
  | [] => []
  | c :: s => if c = '/' then s else c :: s

variable {s : Text} {c : Char}

theorem dropWhile_of_head {p : Char → Bool} (h : ∀ c, s.head? = some c → p c = false) :
    s.dropWhile p = s := by
  cases s with
  | nil => rfl
  | cons c s => rw [List.dropWhile_cons, h c rfl]; rfl

theorem dropWhile_of_forall {p : Char → Bool} (h : ∀ c ∈ s, p c = false) : s.dropWhile p = s :=
  dropWhile_of_head fun c hc => h c (List.mem_of_mem_head? hc)

/-- What holds of the 128 characters holds of an ASCII character. -/
theorem forall_ascii {Q : Char → Prop} (hall : ∀ n : Fin 128, Q (Char.ofNat n))
    (h : c.toNat < 128) : Q c := by
  have hc := hall ⟨c.toNat, h⟩
  rw [Char.ofNat_toNat] at hc
  exact hc

/-- The two runtimes have the same ASCII white space. -/
theorem isSpaceGo_ascii (h : c.toNat < 128) : isSpaceGo c = isSpace c :=
  @forall_ascii c (fun c => isSpaceGo c = isSpace c) (by decide +kernel) h

theorem toLower_ascii (h : c.toNat < 128) :
    c.toLower.toNat < 128 ∧ c.toLower.toLower = c.toLower :=
  @forall_ascii c (fun c => c.toLower.toNat < 128 ∧ c.toLower.toLower = c.toLower)
    (by decide +kernel) h

theorem find_congr {α : Type} {p q : α → Bool} {l : List α} (h : ∀ a ∈ l, p a = q a) :
    l.find? p = l.find? q := by
  induction l with
  | nil => rfl
  | cons a l ih =>
    rw [List.find?_cons, List.find?_cons, h a (List.mem_cons_self ..),
      ih fun b hb => h b (List.mem_cons_of_mem _ hb)]

theorem dropWhile_congr {p q : Char → Bool} (h : ∀ c ∈ s, p c = q c) :
    s.dropWhile p = s.dropWhile q := by
  induction s with
  | nil => rfl
  | cons c s ih =>
    rw [List.dropWhile_cons, List.dropWhile_cons, h c (List.mem_cons_self ..),
      ih fun d hd => h d (List.mem_cons_of_mem _ hd)]

theorem trimSpace_ascii (h : IsAscii s) : trimSpace s = trim s := by
  have hstart : s.dropWhile isSpaceGo = s.dropWhile isSpace :=
    dropWhile_congr fun c hc => isSpaceGo_ascii (h c hc)
  rw [trimSpace, trim, trimEnd, trimStart, trimStart, hstart]
  congr 1
  refine dropWhile_congr fun c hc => isSpaceGo_ascii (h c ?_)
  exact (List.dropWhile_sublist _).mem (List.mem_reverse.mp hc)

theorem mem_trim (h : c ∈ trim s) : c ∈ s := by
  rw [trim, trimEnd, List.mem_reverse] at h
  have h := (List.dropWhile_sublist _).mem h
  rw [List.mem_reverse] at h
  exact (List.dropWhile_sublist _).mem h

theorem trim_of_forall (h : ∀ c ∈ s, isSpace c = false) : trim s = s := by
  rw [trim, trimStart, dropWhile_of_forall h, trimEnd, trimStart,
    dropWhile_of_forall fun c hc => h c (List.mem_reverse.mp hc), List.reverse_reverse]

theorem lowerAscii_idem (h : IsAscii s) : lowerAscii (lowerAscii s) = lowerAscii s := by
  rw [lowerAscii, lowerAscii, List.map_map]
  exact List.map_congr_left fun c hc => (toLower_ascii (h c hc)).2

theorem isAscii_lowerAscii (h : IsAscii s) : IsAscii (lowerAscii s) := by
  intro c hc
  obtain ⟨d, hd, rfl⟩ := List.mem_map.mp hc
  exact (toLower_ascii (h d hd)).1

/-- A runtime that knows the ASCII letters only. -/
def asciiOnly : Unicode where
  goLower := lowerAscii
  equalFold s t := lowerAscii s = lowerAscii t
  jsLower := lowerAscii
  goLower_ascii _ _ := rfl
  equalFold_ascii _ _ _ _ := decide_eq_true_iff
  jsLower_ascii _ _ := rfl

end GoText
