/-!
# The value of a double

A finite double is a whole number of units, each a power of two. `Binary.ofFloat` reads sign, mantissa
and exponent off the sixty-four bits, so that every later step works with natural numbers and is exact.
-/
namespace Bleu.Decimal

/-- A double taken apart: not a number, an infinity, or the finite value `± mantissa · 2 ^ exponent`. -/
inductive Binary
  | nan
  | infinite (negative : Bool)
  | finite (negative : Bool) (mantissa : Nat) (exponent : Int)
deriving DecidableEq, Repr

/-- The number of values of a word of sixty-four bits. -/
def wordSize : Nat := Nat.pow 2 64

namespace Binary

/-- The mantissa from which on a double is normal: its leading bit is not stored. -/
def hiddenBit : Nat := Nat.pow 2 52

/-- The exponent of the smallest positive double. -/
def leastExponent : Int := -1074

/-- The exponent field of infinities and of values that are not numbers. -/
def specialField : Nat := 2047

/-- Takes the fields of a double from its bits. -/
def ofBits (bits : UInt64) : Binary :=
  let word := bits.toNat
  let negative := 2 * word / wordSize == 1
  let field := word / hiddenBit % 2048
  let fraction := word % hiddenBit
  if field = specialField then
    if fraction = 0 then .infinite negative else .nan
  else if field = 0 then .finite negative fraction leastExponent
  else .finite negative (hiddenBit + fraction) (leastExponent + (field - 1 : Nat))

/-- Takes a double apart. -/
def ofFloat (x : Float) : Binary := ofBits x.toBits

end Binary

example : Binary.ofBits 0x3ff0000000000000 = .finite false (2 ^ 52) (-52) := by decide
example : Binary.ofBits 0x8000000000000001 = .finite true 1 (-1074) := by decide
example : Binary.ofBits 0xfff0000000000000 = .infinite true := by decide

end Bleu.Decimal
