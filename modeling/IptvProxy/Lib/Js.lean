import Mathlib.Algebra.GroupWithZero.Nat
import Mathlib.Data.List.Basic

/-!
# Strings of JavaScript

A string is the list of its characters. `length` counts UTF-16 code units, and `trim` takes away what
`\s` of a regular expression matches.
-/

namespace Js

/-- A string. -/
abbrev Text := List Char

/-- A white space or a line terminator. -/
def isSpace (c : Char) : Bool :=
  (9 ≤ c.toNat && c.toNat ≤ 13) || c.toNat = 0x20 || c.toNat = 0xA0 || c.toNat = 0x1680 ||
    (0x2000 ≤ c.toNat && c.toNat ≤ 0x200A) || c.toNat = 0x2028 || c.toNat = 0x2029 ||
    c.toNat = 0x202F || c.toNat = 0x205F || c.toNat = 0x3000 || c.toNat = 0xFEFF

/-- `trimStart` -/
def trimStart (s : Text) : Text := s.dropWhile isSpace

/-- `trimEnd` -/
def trimEnd (s : Text) : Text := (trimStart s.reverse).reverse

/-- `trim` -/
def trim (s : Text) : Text := trimEnd (trimStart s)

/-- `length` -/
def length (s : Text) : ℕ := (s.map fun c => if c.toNat < 0x10000 then 1 else 2).sum

end Js
