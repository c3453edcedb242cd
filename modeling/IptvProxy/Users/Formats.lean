import IptvProxy.Users.Verifier

/-!
# The two formats of a verifier

`isProviderPasswordHash` of `lib/auth/provider-password.ts` beside the format checks of
`verifyProviderPassword` of `internal/provider/password.go`.

`Buffer.from` never throws: it skips what is no digit and stops at padding, while `RawURLEncoding`
knows neither padding nor the alphabet of `+` and `/`, and rejects a single last digit. So the
administration keeps a verifier that the proxy rejects for every password
(`padded_verifier_is_kept`). `strconv.Atoi`, on the other hand, reads a plus sign. Where neither
matters the two agree (`formats_agree_iff`).
-/

namespace IptvProxy.Users

open Js

/-- The format checks of `verifyProviderPassword`. -/
def passesFormatChecks (encoded : Text) : Bool :=
  match encoded.splitOn '$' with
  | [first, count, salt, derived] =>
    if first ≠ algorithm then false
    else match atoi count, Base64.decode salt, Base64.decode derived with
      | some n, some salt, some expected =>
        10000 ≤ n && n ≤ 10000000 && 8 ≤ salt.length && 16 ≤ expected.length
      | _, _, _ => false
  | _ => false

/-- A number without its plus sign. -/
def withoutPlus : Text → Text
  | '+' :: s => s
  | s => s

/-- The number of iterations that digits write is within the limits. -/
def countOk (s : Text) : Prop := isDigits s = true ∧ 10000 ≤ decimal s ∧ decimal s ≤ 10000000

/-- Where the two formats agree: of what has four parts, the algorithm, a number within the limits
and two texts that are long enough, the texts can be read, or if there is a plus sign, they
cannot. -/
def Agreeable (value : Text) : Prop :=
  ∀ count salt derived, value.splitOn '$' = [algorithm, count, salt, derived] →
    countOk (withoutPlus count) → 8 ≤ bufferLength salt → 16 ≤ bufferLength derived →
    ((Base64.WellFormed salt ∧ Base64.WellFormed derived) ↔ count.head? ≠ some '+')

/-- What is read of a text has the length that the other side expects. -/
theorem decode_length_iff (s : Text) (n : ℕ) :
    (∃ b, Base64.decode s = some b ∧ n ≤ b.length) ↔ Base64.WellFormed s ∧ n ≤ bufferLength s := by
  have hlength := Base64.length_decode s
  by_cases hwf : Base64.WellFormed s
  · rw [if_pos hwf, ← bufferLength_of_digits hwf.1] at hlength
    obtain ⟨b, hb, heq⟩ := Option.map_eq_some_iff.mp hlength
    constructor
    · rintro ⟨b', hb', hn⟩
      obtain rfl := Option.some.inj (hb.symm.trans hb')
      exact ⟨hwf, by rwa [← heq]⟩
    · rintro ⟨-, hn⟩
      exact ⟨b, hb, by rwa [heq]⟩
  · rw [if_neg hwf] at hlength
    constructor
    · rintro ⟨b, hb, -⟩
      rw [hb] at hlength
      cases hlength
    · rintro ⟨h, -⟩
      exact absurd h hwf

/-- The number of iterations, as `strconv.Atoi` reads it. -/
theorem atoi_iff (s : Text) : (∃ n, atoi s = some n ∧ 10000 ≤ n ∧ n ≤ 10000000) ↔
    countOk (withoutPlus s) := by
  have hplain : ∀ t : Text, (∃ n : ℤ, (if isDigits t = true then some (decimal t : ℤ) else none) =
      some n ∧ 10000 ≤ n ∧ n ≤ 10000000) ↔ countOk t := by
    intro t
    rw [countOk]
    constructor
    · rintro ⟨n, hn, hlow, hhigh⟩
      split at hn
      · next h =>
        obtain rfl := Option.some.inj hn
        exact ⟨h, by omega, by omega⟩
      · cases hn
    · rintro ⟨h, hlow, hhigh⟩
      exact ⟨decimal t, if_pos h, by omega, by omega⟩
  unfold atoi
  split
  · next t => exact hplain t
  · next t =>
    constructor
    · rintro ⟨n, hn, hlow, -⟩
      split at hn
      · obtain rfl := Option.some.inj hn
        omega
      · cases hn
    · rintro ⟨h, -⟩
      exact absurd h (by simp [withoutPlus, isDigits])
  · next hplus hminus =>
    have hsame : withoutPlus s = s := by
      unfold withoutPlus
      split
      · next t => exact absurd rfl (hplus t)
      · rfl
    rw [hsame]
    exact hplain s

theorem isDigits_withoutPlus (s : Text) :
    isDigits s = true ↔ isDigits (withoutPlus s) = true ∧ s.head? ≠ some '+' := by
  unfold withoutPlus
  split
  · simp [isDigits]
  · next hplus =>
    constructor
    · intro h
      refine ⟨h, fun hhead => ?_⟩
      obtain ⟨t, rfl⟩ := List.head?_eq_some_iff.mp hhead
      exact hplus t rfl
    · exact And.left

theorem isProviderPasswordHash_iff {value first count salt derived : Text}
    (h : value.splitOn '$' = [first, count, salt, derived]) :
    isProviderPasswordHash value = true ↔ first = algorithm ∧
      (countOk (withoutPlus count) ∧ count.head? ≠ some '+') ∧
      8 ≤ bufferLength salt ∧ 16 ≤ bufferLength derived := by
  have hne : ∀ {s : Text} {n : ℕ}, 1 ≤ n → n ≤ bufferLength s → s ≠ [] := by
    rintro _ n hpos hn rfl
    exact absurd (Nat.le_trans hpos hn) (by decide)
  have hcount : isDigits count = true ∧ 10000 ≤ decimal count ∧ decimal count ≤ 10000000 ↔
      countOk (withoutPlus count) ∧ count.head? ≠ some '+' := by
    by_cases hplus : count.head? = some '+'
    · have hno : ¬isDigits count = true := fun hd => ((isDigits_withoutPlus count).mp hd).2 hplus
      exact ⟨fun hboth => absurd hboth.1 hno, fun hboth => absurd hplus hboth.2⟩
    · have hsame : withoutPlus count = count := by
        unfold withoutPlus
        split
        · exact absurd rfl hplus
        · rfl
      rw [hsame, countOk]
      exact ⟨fun hboth => ⟨hboth, hplus⟩, And.left⟩
  rw [isProviderPasswordHash, h, ← hcount]
  simp only [Bool.and_eq_true, decide_eq_true_eq]
  constructor
  · rintro ⟨⟨⟨⟨⟨⟨⟨hfirst, hdigits⟩, hlow⟩, hhigh⟩, -⟩, -⟩, hsalt⟩, hderived⟩
    exact ⟨hfirst, ⟨hdigits, hlow, hhigh⟩, hsalt, hderived⟩
  · rintro ⟨hfirst, ⟨hdigits, hlow, hhigh⟩, hsalt, hderived⟩
    exact ⟨⟨⟨⟨⟨⟨⟨hfirst, hdigits⟩, hlow⟩, hhigh⟩, hne (by decide) hsalt⟩,
      hne (by decide) hderived⟩, hsalt⟩, hderived⟩

theorem passesFormatChecks_iff {value first count salt derived : Text}
    (h : value.splitOn '$' = [first, count, salt, derived]) :
    passesFormatChecks value = true ↔ first = algorithm ∧ countOk (withoutPlus count) ∧
      (Base64.WellFormed salt ∧ 8 ≤ bufferLength salt) ∧
      Base64.WellFormed derived ∧ 16 ≤ bufferLength derived := by
  rw [passesFormatChecks, h, ← atoi_iff, ← decode_length_iff, ← decode_length_iff]
  dsimp only
  by_cases hfirst : first = algorithm
  · rw [if_neg (not_not.mpr hfirst)]
    cases hcount : atoi count with
    | none => simp
    | some n =>
      cases hsalt : Base64.decode salt with
      | none => simp
      | some b =>
        cases hderived : Base64.decode derived with
        | none => simp
        | some k => simp [hfirst, and_assoc]
  · rw [if_pos hfirst]
    simp [hfirst]

/-- What does not have four parts has neither format. -/
theorem formats_of_parts {value : Text}
    (h : ∀ first count salt derived, value.splitOn '$' ≠ [first, count, salt, derived]) :
    isProviderPasswordHash value = false ∧ passesFormatChecks value = false := by
  constructor
  · unfold isProviderPasswordHash
    split
    · next heq => exact (h _ _ _ _ heq).elim
    · rfl
  · unfold passesFormatChecks
    split
    · next heq => exact (h _ _ _ _ heq).elim
    · rfl

variable {pbkdf2 : Text → Bytes → ℕ → ℕ → Bytes}

/-- The proxy rejects every password for a verifier that does not have its format. -/
theorem passesFormatChecks_of_verify {password value : Text}
    (h : verifyProviderPassword pbkdf2 password value = true) : passesFormatChecks value = true := by
  by_cases hparts : ∃ first count salt derived, value.splitOn '$' = [first, count, salt, derived]
  · obtain ⟨first, count, salt, derived, heq⟩ := hparts
    rw [verifyProviderPassword, heq] at h
    rw [passesFormatChecks, heq]
    dsimp only at h ⊢
    by_cases hfirst : first = algorithm
    · rw [if_neg (not_not.mpr hfirst)] at h ⊢
      cases hcount : atoi count with
      | none => simp [hcount] at h
      | some n =>
        cases hsalt : Base64.decode salt with
        | none => simp [hcount, hsalt] at h
        | some b =>
          cases hderived : Base64.decode derived with
          | none => simp [hcount, hsalt, hderived] at h
          | some k =>
            simp only [hcount, hsalt, hderived, matchesKey, Bool.and_eq_true] at h ⊢
            exact ⟨⟨h.1, h.2.1.1⟩, h.2.1.2⟩
    · rw [if_pos hfirst] at h
      cases h
  · unfold verifyProviderPassword at h
    split at h
    · next first count salt derived heq => exact (hparts ⟨first, count, salt, derived, heq⟩).elim
    · cases h

/-- The two formats agree about a text. -/
theorem formats_agree (value : Text) :
    (isProviderPasswordHash value = true ↔ passesFormatChecks value = true) ↔ Agreeable value := by
  by_cases hparts : ∃ first count salt derived, value.splitOn '$' = [first, count, salt, derived]
  · obtain ⟨first, count, salt, derived, heq⟩ := hparts
    rw [isProviderPasswordHash_iff heq, passesFormatChecks_iff heq]
    constructor
    · intro h count' salt' derived' heq' hcount hsalt hderived
      rw [heq] at heq'
      obtain ⟨hfirst, rfl, rfl, rfl⟩ : first = algorithm ∧ count = count' ∧ salt = salt' ∧
        derived = derived' := by simpa using heq'
      constructor
      · rintro ⟨hs, hd⟩
        exact (h.mpr ⟨hfirst, hcount, ⟨hs, hsalt⟩, hd, hderived⟩).2.1.2
      · intro hplus
        obtain ⟨-, -, ⟨hs, -⟩, hd, -⟩ := h.mp ⟨hfirst, ⟨hcount, hplus⟩, hsalt, hderived⟩
        exact ⟨hs, hd⟩
    · intro h
      constructor
      · rintro ⟨rfl, ⟨hcount, hplus⟩, hsalt, hderived⟩
        obtain ⟨hs, hd⟩ := (h count salt derived heq hcount hsalt hderived).mpr hplus
        exact ⟨rfl, hcount, ⟨hs, hsalt⟩, hd, hderived⟩
      · rintro ⟨rfl, hcount, ⟨hs, hsalt⟩, hd, hderived⟩
        exact ⟨rfl, ⟨hcount, (h count salt derived heq hcount hsalt hderived).mp ⟨hs, hd⟩⟩, hsalt,
          hderived⟩
  · have hnone : ∀ first count salt derived, value.splitOn '$' ≠ [first, count, salt, derived] :=
      fun first count salt derived heq => hparts ⟨first, count, salt, derived, heq⟩
    obtain ⟨hleft, hright⟩ := formats_of_parts hnone
    rw [hleft, hright]
    exact ⟨fun _ _ _ _ heq => (hnone _ _ _ _ heq).elim, fun _ => Iff.rfl⟩

/-- **What is written is accepted on both sides**, and the formats agree where a text can be
read. -/
theorem formats_agree_iff (hkey : ∀ p s n k, (pbkdf2 p s n k).length = k) :
    (∀ password salt, password ≠ [] → salt.length = saltBytes →
      isProviderPasswordHash (hashProviderPassword pbkdf2 password salt) = true ∧
        verifyProviderPassword pbkdf2 password (hashProviderPassword pbkdf2 password salt) =
          true) ∧
      ∀ value, (isProviderPasswordHash value = true ↔ passesFormatChecks value = true) ↔
        Agreeable value :=
  ⟨fun _ _ _ hsalt => ⟨isProviderPasswordHash_hash hkey hsalt, verifyProviderPassword_hash hkey hsalt⟩,
    formats_agree⟩

/-- A verifier that is written is a text about which they agree. -/
theorem formats_agree_iff_sample :
    verifyProviderPassword toyKey "spring".toList
        (hashProviderPassword toyKey "spring".toList (List.replicate 16 7)) = true ∧
      Agreeable (hashProviderPassword toyKey "spring".toList (List.replicate 16 7)) := by
  obtain ⟨hwritten, hagree⟩ := formats_agree_iff length_toyKey
  obtain ⟨hhash, hverify⟩ := hwritten "spring".toList (List.replicate 16 7) (by decide) (by decide)
  exact ⟨hverify, (hagree _).mp ⟨fun _ => passesFormatChecks_of_verify hverify, fun _ => hhash⟩⟩

/-- A verifier with padding. -/
def padded : Text :=
  ['$'].intercalate [algorithm, (toString iterations).toList, "AAAAAAAAAAAAAAAAAAAAAA==".toList,
    List.replicate 43 'A' ++ ['=']]

/-- The administration keeps it, and the proxy rejects every password. -/
theorem padded_verifier_is_kept :
    ¬∀ value, isProviderPasswordHash value = true ↔ passesFormatChecks value = true := by
  intro h
  have hboth : isProviderPasswordHash padded = true ∧ passesFormatChecks padded = false := by
    decide
  have hpasses := (h padded).mp hboth.1
  rw [hboth.2] at hpasses
  cases hpasses

end IptvProxy.Users
