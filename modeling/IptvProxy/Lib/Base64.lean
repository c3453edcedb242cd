import IptvProxy.Lib.Percent

/-!
# Base64 without padding

The alphabet is that of file names and URLs. Three bytes are four digits; the last group may be
shorter. Reading ignores line breaks, and the bits that a last digit has too many
(`decode_encode`).
-/

namespace Base64

/-- The digits. -/
def alphabet : List Char :=
  "ABCDEFGHIJKLMNOPQRSTUVWXYZabcdefghijklmnopqrstuvwxyz0123456789-_".toList

/-- How a digit is written. -/
def char (d : ℕ) : Char := alphabet.getD d 'A'

/-- How it is read. -/
def digit (c : Char) : Option ℕ := alphabet.idxOf? c

/-- The digits of a text of bytes. -/
def digits : Bytes → List ℕ
  | a :: b :: c :: rest =>
    a.val / 4 :: (a.val % 4 * 16 + b.val / 16) :: (b.val % 16 * 4 + c.val / 64) :: c.val % 64 ::
      digits rest
  | [a, b] => [a.val / 4, a.val % 4 * 16 + b.val / 16, b.val % 16 * 4]
  | [a] => [a.val / 4, a.val % 4 * 16]
  | [] => []

/-- The bytes of a list of digits. -/
def bytes : List ℕ → Option Bytes
  | p :: q :: r :: s :: rest => (bytes rest).map fun t =>
    Fin.ofNat 256 (p * 4 + q / 16) :: Fin.ofNat 256 (q % 16 * 16 + r / 4) ::
      Fin.ofNat 256 (r % 4 * 64 + s) :: t
  | [p, q, r] => some [Fin.ofNat 256 (p * 4 + q / 16), Fin.ofNat 256 (q % 16 * 16 + r / 4)]
  | [p, q] => some [Fin.ofNat 256 (p * 4 + q / 16)]
  | [_] => none
  | [] => some []

/-- Writing. -/
def encode (s : Bytes) : List Char := (digits s).map char

/-- Reading. -/
def decode (t : List Char) : Option Bytes :=
  ((t.filter fun c => c ≠ '\r' && c ≠ '\n').mapM digit).bind bytes

theorem digit_char {d : ℕ} (h : d < 64) : digit (char d) = some d := by
  have hall : ∀ d : Fin 64, digit (char d) = some d.val := by decide +kernel
  exact hall ⟨d, h⟩

theorem char_mem (d : ℕ) : char d ∈ alphabet := by
  rw [char, List.getD_eq_getElem?_getD]
  cases hd : alphabet[d]? with
  | none => exact (by decide : 'A' ∈ alphabet)
  | some c => exact List.mem_of_getElem? hd

theorem mem_encode {s : Bytes} {c : Char} (h : c ∈ encode s) : c ∈ alphabet := by
  obtain ⟨d, -, rfl⟩ := List.mem_map.mp h
  exact char_mem d

theorem digits_lt (s : Bytes) : ∀ d ∈ digits s, d < 64 := by
  induction s using digits.induct with
  | case1 a b c rest ih =>
    intro d hd
    rw [digits] at hd
    simp only [List.mem_cons] at hd
    rcases hd with rfl | rfl | rfl | rfl | hd
    · omega
    · omega
    · omega
    · omega
    · exact ih d hd
  | case2 a b => simp only [digits, List.forall_mem_cons]; exact ⟨by omega, by omega, by omega, nofun⟩
  | case3 a => simp only [digits, List.forall_mem_cons]; exact ⟨by omega, by omega, nofun⟩
  | case4 => exact nofun

theorem bytes_digits (s : Bytes) : bytes (digits s) = some s := by
  induction s using digits.induct with
  | case1 a b c rest ih =>
    rw [digits, bytes, ih, Option.map_some]
    congr 2
    · apply Fin.ext
      rw [Fin.val_ofNat]
      omega
    · congr 1
      · apply Fin.ext
        rw [Fin.val_ofNat]
        omega
      · congr 1
        apply Fin.ext
        rw [Fin.val_ofNat]
        omega
  | case2 a b =>
    rw [digits, bytes]
    congr 2
    · apply Fin.ext
      rw [Fin.val_ofNat]
      omega
    · congr 1
      apply Fin.ext
      rw [Fin.val_ofNat]
      omega
  | case3 a =>
    rw [digits, bytes]
    congr 2
    apply Fin.ext
    rw [Fin.val_ofNat]
    omega
  | case4 => rfl

theorem mapM_digit {ds : List ℕ} (h : ∀ d ∈ ds, d < 64) : (ds.map char).mapM digit = some ds := by
  induction ds with
  | nil => rfl
  | cons d ds ih =>
    have hd := digit_char (h d (List.mem_cons_self ..))
    rw [List.map_cons, List.mapM_cons, hd, ih fun e he => h e (List.mem_cons_of_mem _ he)]
    rfl

/-- What is written can be read. -/
theorem decode_encode (s : Bytes) : decode (encode s) = some s := by
  have hfilter : (encode s).filter (fun c => c ≠ '\r' && c ≠ '\n') = encode s := by
    rw [List.filter_eq_self]
    intro c hc
    have hall : alphabet.all (fun c => c ≠ '\r' && c ≠ '\n') = true := by decide
    exact List.all_eq_true.mp hall c (mem_encode hc)
  rw [decode, hfilter, encode, mapM_digit (digits_lt s)]
  exact bytes_digits s

/-- Six bits a digit, eight bits a byte. -/
theorem length_encode (s : Bytes) : (encode s).length * 6 / 8 = s.length := by
  rw [encode, List.length_map]
  induction s using digits.induct with
  | case1 a b c rest ih =>
    rw [digits]
    simp only [List.length_cons]
    omega
  | case2 a b => simp [digits]
  | case3 a => simp [digits]
  | case4 => simp [digits]

/-! ## What can be read -/

/-- What can be read: digits and line breaks, and not a single digit in the last group. -/
def WellFormed (t : List Char) : Prop :=
  (∀ c ∈ t, c ∈ alphabet ∨ c = '\r' ∨ c = '\n') ∧
    (t.filter fun c => c ≠ '\r' && c ≠ '\n').length % 4 ≠ 1

instance (t : List Char) : Decidable (WellFormed t) := by
  unfold WellFormed
  infer_instance

/-- Six bits a digit, eight bits a byte; a single digit is no byte. -/
theorem length_bytes (ds : List ℕ) :
    (bytes ds).map List.length = if ds.length % 4 = 1 then none else some (ds.length * 6 / 8) := by
  induction ds using bytes.induct with
  | case1 p q r s rest ih =>
    rw [bytes, Option.map_map]
    have hmap : (bytes rest).map (List.length ∘ fun t =>
        Fin.ofNat 256 (p * 4 + q / 16) :: Fin.ofNat 256 (q % 16 * 16 + r / 4) ::
          Fin.ofNat 256 (r % 4 * 64 + s) :: t) = ((bytes rest).map List.length).map (· + 3) := by
      rw [Option.map_map]
      rfl
    rw [hmap, ih]
    simp only [List.length_cons]
    split
    · rw [if_pos (by omega)]
      rfl
    · rw [if_neg (by omega), Option.map_some]
      congr 1
      omega
  | case2 p q r => simp [bytes]
  | case3 p q => simp [bytes]
  | case4 p => rfl
  | case5 => rfl

theorem mapM_digit_length {t : List Char} (h : ∀ c ∈ t, c ∈ alphabet) :
    ∃ ds, t.mapM digit = some ds ∧ ds.length = t.length := by
  induction t with
  | nil => exact ⟨[], rfl, rfl⟩
  | cons c t ih =>
    obtain ⟨d, hd⟩ : ∃ d, digit c = some d := Option.ne_none_iff_exists'.mp fun hnone =>
      List.idxOf?_eq_none_iff.mp hnone (h c (List.mem_cons_self ..))
    obtain ⟨ds, hds, hlength⟩ := ih fun c hc => h c (List.mem_cons_of_mem _ hc)
    refine ⟨d :: ds, ?_, congrArg (· + 1) hlength⟩
    rw [List.mapM_cons, hd, hds]
    rfl

theorem mem_of_mapM_digit {t : List Char} {ds : List ℕ} (h : t.mapM digit = some ds) :
    ∀ c ∈ t, c ∈ alphabet := by
  induction t generalizing ds with
  | nil => exact nofun
  | cons c t ih =>
    rw [List.mapM_cons] at h
    obtain ⟨d, hd, hrest⟩ := Option.bind_eq_some_iff.mp h
    obtain ⟨es, hes, -⟩ := Option.bind_eq_some_iff.mp hrest
    intro c' hc'
    rcases List.mem_cons.mp hc' with rfl | hmem
    · by_contra hno
      rw [digit, List.idxOf?_eq_none_iff.mpr hno] at hd
      cases hd
    · exact ih hes c' hmem

/-- How much is read. -/
theorem length_decode (t : List Char) : (decode t).map List.length =
    if WellFormed t then some ((t.filter fun c => c ≠ '\r' && c ≠ '\n').length * 6 / 8) else none := by
  rw [decode]
  by_cases hall : ∀ c ∈ t, c ∈ alphabet ∨ c = '\r' ∨ c = '\n'
  · have hfilter : ∀ c ∈ t.filter fun c => c ≠ '\r' && c ≠ '\n', c ∈ alphabet := by
      intro c hc
      rw [List.mem_filter] at hc
      rcases hall c hc.1 with h | rfl | rfl
      · exact h
      · exact absurd hc.2 (by decide)
      · exact absurd hc.2 (by decide)
    obtain ⟨ds, hds, hlength⟩ := mapM_digit_length hfilter
    rw [hds, Option.bind_some, length_bytes, hlength]
    by_cases hone : (t.filter fun c => c ≠ '\r' && c ≠ '\n').length % 4 = 1
    · rw [if_pos hone, if_neg fun h => h.2 hone]
    · rw [if_neg hone, if_pos ⟨hall, hone⟩]
  · rw [if_neg fun h => hall h.1]
    cases hds : (t.filter fun c => c ≠ '\r' && c ≠ '\n').mapM digit with
    | none => rfl
    | some ds =>
      refine absurd (fun c hc => ?_) hall
      by_cases hbreak : c = '\r' ∨ c = '\n'
      · exact .inr hbreak
      · refine .inl (mem_of_mapM_digit hds c (List.mem_filter.mpr ⟨hc, ?_⟩))
        rw [not_or] at hbreak
        simp [hbreak.1, hbreak.2]

end Base64
