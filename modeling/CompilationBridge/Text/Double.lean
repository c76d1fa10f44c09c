/-!
Numbers as they are kept in fifty-three binary digits, and the shortest decimal that stands for such
a number. Everything is computed exactly: a decimal is a whole number times a power of ten, and a kept
number is a whole number below `2 ^ 53` times a power of two.
-/

namespace CompilationBridge.Text

/-- The number `digits * 10 ^ exponent`. -/
structure Decimal where
  digits : Nat
  exponent : Int
deriving DecidableEq, Repr

/-- The number `significand * 2 ^ exponent`. -/
structure Double where
  significand : Nat
  exponent : Int
deriving DecidableEq, Repr

/-- The whole number nearest to a quotient; a half goes to the even neighbour. -/
def roundQuotient (n d : Nat) : Nat :=
  let q := n / d
  let twice := 2 * (n % d)
  if twice < d then q
  else if d < twice then q + 1
  else if q % 2 = 0 then q
  else q + 1

namespace Double

def precision : Nat := 53

def leastExponent : Int := -1074

def greatestExponent : Int := 971

/-- The quotient `n / d` divided by `2 ^ e`, as a quotient. -/
def scaled (n d : Nat) (e : Int) : Nat × Nat :=
  if 0 ≤ e then (n, d * Nat.pow 2 e.natAbs) else (n * Nat.pow 2 e.natAbs, d)

/-- The power of two that leaves fifty-three digits before the point, if it is not too small. -/
def exponentOf (n d : Nat) : Int :=
  let e : Int := (n.log2 : Int) - (d.log2 : Int) - 52
  let (a, b) := scaled n d e
  let e := if a / b < 0x10000000000000 then e - 1 else e
  max e leastExponent

/-- The number nearest to a quotient, if it is not too large. -/
def ofQuotient? (n d : Nat) : Option Double :=
  if n = 0 then some ⟨0, leastExponent⟩
  else
    let e := exponentOf n d
    let (a, b) := scaled n d e
    let m := roundQuotient a b
    let (m, e) := if m = Nat.pow 2 precision then (0x10000000000000, e + 1) else (m, e)
    if greatestExponent < e then none else some ⟨m, e⟩

/-- The number nearest to a decimal, if it is not too large. Exponents beyond a thousand digits more
than the range of kept numbers make no difference. -/
def ofDecimal? (x : Decimal) : Option Double :=
  let size : Int := (Nat.toDigits 10 x.digits).length + x.exponent
  if x.digits = 0 ∨ size < -400 then some ⟨0, leastExponent⟩
  else if 400 < size then none
  else if 0 ≤ x.exponent then ofQuotient? (x.digits * Nat.pow 10 x.exponent.natAbs) 1
  else ofQuotient? x.digits (Nat.pow 10 x.exponent.natAbs)

/-- The number as a quotient. -/
def quotient (x : Double) : Nat × Nat :=
  if 0 ≤ x.exponent then (x.significand * Nat.pow 2 x.exponent.natAbs, 1)
  else (x.significand, Nat.pow 2 x.exponent.natAbs)

/-- The power of ten of the first digit of a quotient that is not zero. -/
def magnitude (n d : Nat) : Int :=
  let size (k : Nat) : Int := (Nat.toDigits 10 k).length
  let e := size n - size d
  let isBelow := if 0 ≤ e then n < d * Nat.pow 10 e.natAbs else n * Nat.pow 10 e.natAbs < d
  if isBelow then e - 1 else e

/-- The decimal of so many digits that stands for a number, if there is one; of two the nearer. -/
def withDigits? (x : Double) (count : Nat) : Option Decimal :=
  let (n, d) := x.quotient
  let e : Int := magnitude n d - (count : Int) + 1
  let (a, b) := if 0 ≤ e then (n, d * Nat.pow 10 e.natAbs) else (n * Nat.pow 10 e.natAbs, d)
  let low : Decimal := ⟨a / b, e⟩
  let high : Decimal := ⟨a / b + 1, e⟩
  let nearer := if 2 * (a % b) < b then [low, high] else [high, low]
  nearer.find? fun y => ofDecimal? y = some x

/-- A decimal without the zero at its end. -/
def withoutZero (x : Decimal) : Decimal :=
  if x.digits % 10 = 0 then ⟨x.digits / 10, x.exponent + 1⟩ else x

/-- The shortest decimal that stands for a number. Only the upper one of two candidates can end with
zeros, when it has one digit more than was asked for. -/
def shortest (x : Double) : Decimal :=
  if x.significand = 0 then ⟨0, 0⟩
  else match ((List.range 17).map (· + 1)).findSome? x.withDigits? with
    | some y => withoutZero y
    | none => ⟨0, 0⟩

end Double

namespace Decimal

/-- A whole number in at least two digits. -/
def twoDigits (n : Nat) : String :=
  if n < 10 then "0" ++ toString n else toString n

/-- Puts a point after so many digits. -/
def pointed (ds : List Char) (before : Nat) : String :=
  if ds.length ≤ before then
    String.ofList (ds ++ List.replicate (before - ds.length) '0')
  else String.ofList (ds.take before) ++ "." ++ String.ofList (ds.drop before)

/-- The written form of a decimal whose last digit is not zero. Powers of ten from `-4` to `5` are
written out, others as an exponent. -/
def render (x : Decimal) : String :=
  let ds := Nat.toDigits 10 x.digits
  let power : Int := x.exponent + ds.length - 1
  if x.digits = 0 then "0"
  else if power < -4 ∨ 6 ≤ power then
    let sign := if power < 0 then "-" else "+"
    pointed ds 1 ++ "e" ++ sign ++ twoDigits power.natAbs
  else if power < 0 then
    "0." ++ String.ofList (List.replicate (power.natAbs - 1) '0' ++ ds)
  else pointed ds (power.toNat + 1)

end Decimal

end CompilationBridge.Text
