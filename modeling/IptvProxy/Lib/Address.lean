import IptvProxy.Lib.Js

/-!
# IP literals

`net.ParseIP` of Go and some predicates of `net.IP`. An address is the list of its eight groups of
16 bits; an IPv4 address is the IPv6 address that it is mapped to.
-/

namespace Address

open Js

/-- An address. -/
abbrev IP : Type := List ℕ

/-- The characters of IP literals. -/
def isAddressChar (c : Char) : Bool :=
  (48 ≤ c.toNat && c.toNat ≤ 57) || (97 ≤ c.toNat && c.toNat ≤ 102) ||
    (65 ≤ c.toNat && c.toNat ≤ 70) || c = '.' || c = ':'

/-- The value of a hexadecimal digit. -/
def hexDigit (c : Char) : Option ℕ :=
  if 48 ≤ c.toNat ∧ c.toNat ≤ 57 then some (c.toNat - 48)
  else if 97 ≤ c.toNat ∧ c.toNat ≤ 102 then some (c.toNat - 87)
  else if 65 ≤ c.toNat ∧ c.toNat ≤ 70 then some (c.toNat - 55)
  else none

/-- A part of an IPv4 address: up to three digits, without a leading zero. -/
def octet (s : Text) : Option ℕ :=
  let n := s.foldl (fun n c => n * 10 + (c.toNat - 48)) 0
  if s = [] ∨ 3 < s.length ∨ (s.all fun c => 48 ≤ c.toNat && c.toNat ≤ 57) = false ∨
      (s.head? = some '0' ∧ s ≠ ['0']) ∨ 255 < n then none
  else some n

/-- Dotted decimal, as the last two groups. -/
def dotted (s : Text) : Option IP :=
  match (s.splitOn '.').mapM octet with
  | some [a, b, c, d] => some [a * 256 + b, c * 256 + d]
  | _ => none

/-- A group of an IPv6 address: up to four digits. -/
def group (s : Text) : Option ℕ :=
  if s = [] ∨ 4 < s.length then none
  else (s.mapM hexDigit).map fun ds => ds.foldl (fun n d => n * 16 + d) 0

/-- Groups between colons; the last one may be an IPv4 address. -/
def groups : List Text → Option IP
  | [] => some []
  | [s] => if s.contains '.' then dotted s else (group s).map fun n => [n]
  | s :: rest => (group s).bind fun n => (groups rest).map fun ns => n :: ns

/-- The part before the first `::` and the part after it. -/
def splitDouble : Text → Option (Text × Text)
  | ':' :: ':' :: s => some ([], s)
  | c :: s => (splitDouble s).map fun t => (c :: t.1, t.2)
  | [] => none

/-- The groups of a text that may be empty. -/
def side (s : Text) : Option IP := if s = [] then some [] else groups (s.splitOn ':')

/-- An IPv6 address. -/
def parseIPv6 (s : Text) : Option IP :=
  match splitDouble s with
  | none => (groups (s.splitOn ':')).filter fun ns => ns.length = 8
  | some (left, right) =>
    -- an IPv4 address comes last
    if left.contains '.' then none
    else (side left).bind fun ls => (side right).bind fun rs =>
      if ls.length + rs.length ≤ 7 then
        some (ls ++ List.replicate (8 - (ls.length + rs.length)) 0 ++ rs)
      else none

/-- `net.ParseIP` -/
def parseIP (s : Text) : Option IP :=
  if s.all isAddressChar = false then none
  else if s.contains ':' then parseIPv6 s
  else (dotted s).map fun v4 => [0, 0, 0, 0, 0, 0xffff] ++ v4

/-- The IPv4 address that is mapped. -/
def to4 : IP → Option (ℕ × ℕ)
  | [0, 0, 0, 0, 0, 0xffff, a, b] => some (a, b)
  | _ => none

/-- `IsLoopback` -/
def isLoopback (ip : IP) : Bool :=
  match to4 ip with
  | some (a, _) => a / 256 = 127
  | none => ip = [0, 0, 0, 0, 0, 0, 0, 1]

/-- `IsUnspecified` -/
def isUnspecified (ip : IP) : Bool :=
  match to4 ip with
  | some v4 => v4 = (0, 0)
  | none => ip = [0, 0, 0, 0, 0, 0, 0, 0]

/-- `IsLinkLocalUnicast` -/
def isLinkLocalUnicast (ip : IP) : Bool :=
  match to4 ip with
  | some (a, _) => a = 169 * 256 + 254
  | none => ip.headD 0 / 64 = 0xfe80 / 64

/-- `IsLinkLocalMulticast` -/
def isLinkLocalMulticast (ip : IP) : Bool :=
  match to4 ip with
  | some (a, b) => a = 224 * 256 ∧ b / 256 = 0
  | none => ip.headD 0 / 256 = 0xff ∧ ip.headD 0 % 16 = 2

/-- An address that does not lead away from the host or its link. -/
def isLocal (ip : IP) : Bool :=
  isLoopback ip || isUnspecified ip || isLinkLocalUnicast ip || isLinkLocalMulticast ip

theorem isAddressChar_of_parseIP {s : Text} {ip : IP} (h : parseIP s = some ip) :
    ∀ c ∈ s, isAddressChar c = true := by
  rw [parseIP] at h
  split at h
  · cases h
  · next hall => exact List.all_eq_true.mp (by simpa using hall)

example : parseIP "::ffff:127.0.0.1".toList = parseIP "127.0.0.1".toList := by decide +kernel

example : parseIP "fe80::1%eth0".toList = none := by decide +kernel

end Address
