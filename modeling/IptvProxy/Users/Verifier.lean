import IptvProxy.Lib.Base64
import IptvProxy.Lib.Js

/-!
# Password verifiers

What is stored instead of a client's password: `hashProviderPassword` and `isProviderPasswordHash`
of `lib/auth/provider-password.ts` write and recognise it, and `verifyProviderPassword` of
`internal/provider/password.go` checks a password against it.

`pbkdf2` stands for PBKDF2 with SHA-256 of either runtime: password, salt, iterations and length of
the key.
-/

namespace IptvProxy.Users

open Js

/-- `ALGORITHM` -/
def algorithm : Text := "pbkdf2_sha256".toList

/-- `ITERATIONS` -/
def iterations : ℕ := 210000

/-- `SALT_BYTES` -/
def saltBytes : ℕ := 16

/-- `KEY_BYTES` -/
def keyBytes : ℕ := 32

/-- The number that digits write. -/
def decimal (s : Text) : ℕ := s.foldl (fun n c => n * 10 + (c.toNat - 48)) 0

/-- `/^\d+$/` -/
def isDigits (s : Text) : Bool := s ≠ [] && s.all fun c => 48 ≤ c.toNat && c.toNat ≤ 57

/-- The low bytes of the code units of a character. -/
def lowBytes (c : Char) : List ℕ :=
  if c.toNat < 0x10000 then [c.toNat % 256]
  else [(c.toNat - 0x10000) / 0x400 % 256, (c.toNat - 0x10000) % 0x400 % 256]

/-- What `Buffer.from` reads as a digit: those of either alphabet. -/
def isBufferDigit (b : ℕ) : Bool := Base64.alphabet.contains (Char.ofNat b) || b = 43 || b = 47

/-- `Buffer.from(s, 'base64url').length`: the low byte of each code unit is looked at, an equals
sign ends the text, and other bytes are skipped. -/
def bufferLength (s : Text) : ℕ :=
  (((s.flatMap lowBytes).takeWhile (· ≠ 61)).filter isBufferDigit).length * 6 / 8

/-- `isProviderPasswordHash` -/
def isProviderPasswordHash (value : Text) : Bool :=
  match value.splitOn '$' with
  | [first, count, salt, derived] =>
    first = algorithm && isDigits count && 10000 ≤ decimal count && decimal count ≤ 10000000 &&
      salt ≠ [] && derived ≠ [] && 8 ≤ bufferLength salt && 16 ≤ bufferLength derived
  | _ => false

/-- `strconv.Atoi`, where no number is too large -/
def atoi : Text → Option ℤ
  | '+' :: s => if isDigits s then some (decimal s) else none
  | '-' :: s => if isDigits s then some (-decimal s) else none
  | s => if isDigits s then some (decimal s) else none

variable (pbkdf2 : Text → Bytes → ℕ → ℕ → Bytes)

/-- `hashProviderPassword`, with the salt that is drawn -/
def hashProviderPassword (password : Text) (salt : Bytes) : Text :=
  ['$'].intercalate [algorithm, (toString iterations).toList, Base64.encode salt,
    Base64.encode (pbkdf2 password salt iterations keyBytes)]

/-- The comparison in `verifyProviderPassword`. -/
def matchesKey (password : Text) (salt expected : Bytes) (count : ℕ) : Bool :=
  8 ≤ salt.length && 16 ≤ expected.length &&
    pbkdf2 password salt count expected.length = expected

/-- `verifyProviderPassword` -/
def verifyProviderPassword (password encoded : Text) : Bool :=
  match encoded.splitOn '$' with
  | [first, count, salt, derived] =>
    if first ≠ algorithm then false
    else match atoi count, Base64.decode salt, Base64.decode derived with
      | some n, some salt, some expected =>
        10000 ≤ n && n ≤ 10000000 && matchesKey pbkdf2 password salt expected n.toNat
      | _, _, _ => false
  | _ => false

/-! ## What is written is recognised -/

theorem dollar_not_mem_encode (s : Bytes) : '$' ∉ Base64.encode s := by
  intro h
  exact absurd (Base64.mem_encode h) (by decide)

/-- Of what the proxy can read, every digit counts. -/
theorem bufferLength_of_digits {s : Text} (h : ∀ c ∈ s, c ∈ Base64.alphabet ∨ c = '\r' ∨ c = '\n') :
    bufferLength s = (s.filter fun c => c ≠ '\r' && c ≠ '\n').length * 6 / 8 := by
  have hplain : (('\r' :: '\n' :: Base64.alphabet).all fun c => lowBytes c = [c.toNat] ∧
      c.toNat ≠ 61 ∧ isBufferDigit c.toNat = (c ≠ '\r' && c ≠ '\n')) = true := by decide +kernel
  simp only [List.all_eq_true, decide_eq_true_eq] at hplain
  have hmem : ∀ c ∈ s, c ∈ '\r' :: '\n' :: Base64.alphabet := by
    intro c hc
    rcases h c hc with hc | rfl | rfl
    · exact List.mem_cons_of_mem _ (List.mem_cons_of_mem _ hc)
    · exact List.mem_cons_self
    · exact List.mem_cons_of_mem _ List.mem_cons_self
  have hbytes : s.flatMap lowBytes = s.map Char.toNat := by
    rw [List.map_eq_flatMap]
    exact List.flatMap_congr fun c hc => (hplain c (hmem c hc)).1
  have hall : (s.map Char.toNat).takeWhile (· ≠ 61) = s.map Char.toNat := by
    rw [List.takeWhile_eq_self_iff]
    intro b hb
    obtain ⟨c, hc, rfl⟩ := List.mem_map.mp hb
    exact decide_eq_true (hplain c (hmem c hc)).2.1
  rw [bufferLength, hbytes, hall, List.filter_map, List.length_map]
  congr 3
  exact List.filter_congr fun c hc => (hplain c (hmem c hc)).2.2

example : bufferLength "AAAA=AAAAAAAA".toList = 3 ∧ bufferLength "ŁAAAAAAAAAA".toList = 8 := by
  decide

theorem bufferLength_encode (s : Bytes) : bufferLength (Base64.encode s) = s.length := by
  have hfilter : (Base64.encode s).filter (fun c => c ≠ '\r' && c ≠ '\n') = Base64.encode s := by
    rw [List.filter_eq_self]
    have hplain : (Base64.alphabet.all fun c => c ≠ '\r' && c ≠ '\n') = true := by decide
    exact fun c hc => List.all_eq_true.mp hplain c (Base64.mem_encode hc)
  rw [bufferLength_of_digits fun c hc => Or.inl (Base64.mem_encode hc), hfilter,
    Base64.length_encode]

variable {pbkdf2} {password : Text} {salt : Bytes}

theorem splitOn_hash : (hashProviderPassword pbkdf2 password salt).splitOn '$' =
    [algorithm, (toString iterations).toList, Base64.encode salt,
      Base64.encode (pbkdf2 password salt iterations keyBytes)] := by
  apply List.splitOn_intercalate
  · simp only [List.forall_mem_cons]
    exact ⟨by decide, by decide, dollar_not_mem_encode _, dollar_not_mem_encode _,
      nofun⟩
  · exact List.cons_ne_nil _ _

/-- A verifier is recognised. -/
theorem isProviderPasswordHash_hash (hkey : ∀ p s n k, (pbkdf2 p s n k).length = k)
    (hsalt : salt.length = saltBytes) :
    isProviderPasswordHash (hashProviderPassword pbkdf2 password salt) = true := by
  have hne : ∀ s : Bytes, 1 ≤ s.length → Base64.encode s ≠ [] := by
    intro s hs hnil
    have := Base64.length_encode s
    rw [hnil] at this
    simp at this
    omega
  have hderived := hkey password salt iterations keyBytes
  rw [isProviderPasswordHash, splitOn_hash]
  simp only [bufferLength_encode, hsalt, hderived, Bool.and_eq_true, decide_eq_true_eq]
  refine ⟨⟨⟨⟨⟨⟨⟨trivial, by decide⟩, by decide⟩, by decide⟩, ?_⟩, ?_⟩,
    by decide⟩, by decide⟩
  · exact hne salt (by rw [hsalt]; decide)
  · exact hne _ (by rw [hderived]; decide)

/-- The password is accepted. -/
theorem verifyProviderPassword_hash (hkey : ∀ p s n k, (pbkdf2 p s n k).length = k)
    (hsalt : salt.length = saltBytes) :
    verifyProviderPassword pbkdf2 password (hashProviderPassword pbkdf2 password salt) = true := by
  have hcount : atoi (toString iterations).toList = some 210000 := by decide
  have hderived := hkey password salt iterations keyBytes
  rw [verifyProviderPassword, splitOn_hash]
  simp only [hcount, Base64.decode_encode, matchesKey, hsalt, hderived, ne_eq, not_true_eq_false,
    if_false, Bool.and_eq_true, decide_eq_true_eq]
  exact ⟨by decide, ⟨by decide, by decide⟩, rfl⟩

/-! ## A stand-in -/

/-- A stand-in for the derivation of keys. -/
def toyKey (password : Text) (salt : Bytes) (count length : ℕ) : Bytes :=
  List.ofFn fun i : Fin length =>
    Fin.ofNat 256 (count + ((password.map Char.toNat)[i.1]?.getD 0) + (salt[i.1]?.getD 0).val)

theorem length_toyKey (p : Text) (s : Bytes) (n k : ℕ) : (toyKey p s n k).length = k :=
  List.length_ofFn

end IptvProxy.Users
