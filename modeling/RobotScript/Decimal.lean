/-!
# Decimal numbers

* `Decimal.ofInt` writes an integer: a minus sign if it is negative, then the
  digits with no leading zero.
* `Decimal.int32?` reads a 32-bit integer: an optional sign, then one or more
  digits whose value is in range.
-/

namespace RobotScript.Decimal

/-- The digits of `n`, `"0"` for zero. -/
def ofNat (n : Nat) : String := String.ofList (Nat.toDigits 10 n)

def ofInt (i : Int) : String :=
  if i < 0 then "-" ++ ofNat i.natAbs else ofNat i.natAbs

/-- The value of a non-empty run of digits. -/
def digits? (cs : List Char) : Option Nat :=
  if !cs.isEmpty && cs.all Char.isDigit then some (Nat.ofDigitChars 10 cs 0) else none

/-- The value of an optional sign and a non-empty run of digits. -/
def int? : List Char → Option Int
  | '-' :: cs => (digits? cs).map fun n => -(n : Int)
  | '+' :: cs => (digits? cs).map Int.ofNat
  | cs => (digits? cs).map Int.ofNat

/-- The 32-bit integer with value `i`, if there is one. -/
def toInt32? (i : Int) : Option Int32 :=
  if Int32.minValue.toInt ≤ i ∧ i ≤ Int32.maxValue.toInt then some (Int32.ofInt i) else none

/-- The 64-bit count with value `i`, if there is one. -/
def toUInt64? (i : Int) : Option UInt64 :=
  if 0 ≤ i ∧ i < UInt64.size then some (UInt64.ofNat i.toNat) else none

def int32? (s : String) : Option Int32 := (int? s.toList).bind toInt32?

end RobotScript.Decimal
