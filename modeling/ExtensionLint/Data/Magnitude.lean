import ExtensionLint.Binary64

/-!
Decimal numbers too large for a double: exactly, and as arithmetic with doubles finds them. The two
differ only next to the limit.
-/
namespace ExtensionLint.Data

/-- The smallest number that rounds to infinity: half a unit above the largest double. -/
def doubleLimit : Nat := Nat.pow 2 1024 - Nat.pow 2 970

/-- Whether `mantissa · 10 ^ exponent` rounds to infinity as a double. Numbers with fewer than 308
digits before the point do not, those with more than 310 do, and the rest is compared exactly. -/
def exceedsDouble (mantissa : Nat) (exponent : Int) : Bool :=
  let digits : Int := (Nat.toDigits 10 mantissa).length + exponent
  if mantissa = 0 ∨ digits < 308 then false
  else if 310 < digits then true
  else if 0 ≤ exponent then doubleLimit ≤ mantissa * Nat.pow 10 exponent.toNat
  else doubleLimit * Nat.pow 10 (-exponent).toNat ≤ mantissa

def withDigit (n : Nat) (digit : Char) : Nat := n * 10 + (digit.toNat - '0'.toNat)

def decimal (digits : List Char) : Nat := digits.foldl withDigit 0

/-- Takes digits into a number while it has at most 64 bits, and yields those that are left. -/
def takeDigits : (n : Nat) → List Char → Nat × List Char
  | n, [] => (n, [])
  | n, c :: digits =>
    if withDigit n c < UInt64.size then takeDigits (withDigit n c) digits else (n, c :: digits)

/-- The greatest power of ten below infinity. -/
def greatestPower : Nat := 308

/-- Whether a number comes out infinite when it is worked out in doubles: the digits that 64 bits can
hold, as a double, times a power of ten. Digits left over only count as places. -/
def overflows (whole fraction : List Char) (exponent : Int) : Bool :=
  let (n, surplus) := takeDigits 0 whole
  let (significand, rest) := takeDigits n fraction
  let power := exponent + surplus.length - (fraction.length - rest.length : Nat)
  if significand = 0 ∨ power < 0 then false
  else if greatestPower < power then true
  else doubleLimit ≤ Binary64.nearest significand * Binary64.nearest (Nat.pow 10 power.toNat)

end ExtensionLint.Data
