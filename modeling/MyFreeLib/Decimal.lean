/-
Decimal numerals: `atoi` as the C library has it, and numerals that it reads
back.
-/
import MyFreeLib.IntBytes
import Mathlib.Data.Nat.Digits.Defs

namespace MyFreeLib

/-- `isspace` in the C locale. -/
def isSpace (byte : Byte) : Bool := byte = 32 ∨ 9 ≤ byte ∧ byte ≤ 13

def isDigit (byte : Byte) : Bool := 48 ≤ byte ∧ byte ≤ 57

/-- The number that digits stand for, the highest first. -/
def digitsNat (digits : List Byte) : ℕ :=
  digits.foldl (fun n byte => 10 * n + (byte.toNat - 48)) 0

/-- `strtol(arg, NULL, 10)`, which stops at the limits of `long`. -/
def strtol (arg : List Byte) : ℤ :=
  let rest := arg.dropWhile isSpace
  let magnitude : ℤ :=
    if rest.head? = some 45 ∨ rest.head? = some 43 then
      digitsNat (rest.tail.takeWhile isDigit)
    else digitsNat (rest.takeWhile isDigit)
  if rest.head? = some 45 then max (-2 ^ 63) (-magnitude)
  else min (2 ^ 63 - 1) magnitude

/-- `(int)strtol(arg, NULL, 10)` -/
def atoi (arg : List Byte) : ℤ := int32 (strtol arg)

/-- The `short` that a value wraps to. -/
def int16 (x : ℤ) : ℤ := (x + 2 ^ 15) % 2 ^ 16 - 2 ^ 15

end MyFreeLib
