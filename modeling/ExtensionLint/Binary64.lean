/-!
Numbers as doubles hold them. A double is the rational number that it stands for; results of operations
are rounded to the nearest double, a half to the even neighbour. Only numbers from zero up to the
largest double are meant, and no subnormal ones.
-/
namespace ExtensionLint.Binary64

/-- The nearest integer; of two equally near ones the even one. -/
def roundHalfEven (q : Rat) : Int :=
  let below := q.floor
  let rest := q - below
  if rest < 1 / 2 then below
  else if 1 / 2 < rest then below + 1
  else if below % 2 = 0 then below
  else below + 1

def twoTo (e : Int) : Rat := if 0 ≤ e then Nat.pow 2 e.toNat else 1 / Nat.pow 2 (-e).toNat

/-- The exponent of the greatest power of two that is not above a positive number. -/
def exponent (q : Rat) : Int :=
  let e : Int := (Nat.log2 q.num.toNat : Int) - Nat.log2 q.den
  if twoTo e ≤ q then e else e - 1

/-- The number of bits of a double after its first one. -/
def fractionBits : Nat := 52

def nearest (q : Rat) : Rat :=
  if q ≤ 0 then 0
  else
    let unit := twoTo (exponent q - fractionBits)
    roundHalfEven (q / unit) * unit

/-- The decimal digits of a number with leading zeros up to a width. -/
def padded (width n : Nat) : String :=
  let digits := toString n
  "".pushn '0' (width - digits.length) ++ digits

def fixed (places : Nat) (q : Rat) : String :=
  let unit := Nat.pow 10 places
  let scaled := (roundHalfEven (q * unit)).toNat
  if places = 0 then toString scaled
  else s!"{scaled / unit}.{padded places (scaled % unit)}"

end ExtensionLint.Binary64
