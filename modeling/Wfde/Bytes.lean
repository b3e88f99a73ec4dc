import Mathlib.Data.UInt

/-!
# Byte strings

A `std::string` is a list of bytes here, and a `char` literal of the source is the byte of the same
name below. Bytes compare as unsigned values, which is how `std::char_traits<char>` orders them.
-/

namespace Wfde

abbrev Bytes := List UInt8

/-- The bytes of an ASCII literal of the source. -/
def bytes (text : String) : Bytes := text.toList.map fun c => UInt8.ofNat c.toNat

def cr : UInt8 := 13
def lf : UInt8 := 10
def slash : UInt8 := 47
def dot : UInt8 := 46
def backslash : UInt8 := 92
def space : UInt8 := 32

/-- `std::isalpha` in the classic locale. -/
def isAlpha (c : UInt8) : Bool := (65 ≤ c && c ≤ 90) || (97 ≤ c && c ≤ 122)

/-- `std::toupper` in the classic locale. -/
def toUpper (c : UInt8) : UInt8 := if 97 ≤ c && c ≤ 122 then c - 32 else c

/-- `\d` of a `boost::regex`. -/
def isDigit (c : UInt8) : Bool := 48 ≤ c && c ≤ 57

/-- `boost::iequals`. -/
def iequals (a b : Bytes) : Bool := a.map toUpper == b.map toUpper

/-- Unsigned 64-bit subtraction, which wraps. -/
def sizeSub (a b : Nat) : Nat := (2 ^ 64 + a - b) % 2 ^ 64

theorem sizeSub_eq_sub {a b : Nat} (hba : b ≤ a) (ha : a < 2 ^ 64) : sizeSub a b = a - b := by
  unfold sizeSub
  omega

end Wfde
