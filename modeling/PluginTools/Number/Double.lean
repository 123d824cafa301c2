/-
Binary64 numbers by what they mean: a sign, a whole mantissa and a power of two. Every operation
here forms one exact fraction and rounds it once, to the nearest number and to the even mantissa on
a tie, so all of them come down to `Double.ofRatio`.
-/

namespace PluginTools

/-- A binary64 number; a finite one has the value `mantissa * 2 ^ exponent`. -/
inductive Double where
  | nan
  | infinite (negative : Bool)
  | finite (negative : Bool) (mantissa : Nat) (exponent : Int)
deriving DecidableEq, Repr, Inhabited

namespace Double

/-- The least exponent of a finite number, that of zero and the subnormal numbers. -/
def minExponent : Int := -1074

/-- The greatest exponent of a finite number. -/
def maxExponent : Int := 971

def zero (negative : Bool) : Double := .finite negative 0 minExponent

def isFinite : Double → Bool
  | .finite .. => true
  | _ => false

/-- The number of the opposite sign; there is one NaN only. -/
def neg : Double → Double
  | .nan => .nan
  | .infinite s => .infinite (!s)
  | .finite s m q => .finite (!s) m q

/-- Equality of numbers: a NaN differs from itself and the two zeros are one number. -/
def same : Double → Double → Bool
  | .infinite s, .infinite t => s == t
  | .finite s m q, .finite t n r => (m == 0 && n == 0) || (s == t && m == n && q == r)
  | _, _ => false

/-! ## Rounding -/

/-- `num / den` to the nearest whole number, to the even one on a tie. -/
def roundEven (num den : Nat) : Nat :=
  let quotient := num / den
  let rest := num % den
  if 2 * rest < den then quotient
  else if den < 2 * rest then quotient + 1
  else quotient + quotient % 2

/-- `num / den` divided by `2 ^ e`, as a fraction. -/
def scale (num den : Nat) (e : Int) : Nat × Nat :=
  if 0 ≤ e then (num, den * Nat.pow 2 e.toNat) else (num * Nat.pow 2 (-e).toNat, den)

/-- The exponent at which the nonzero fraction `num / den` has a mantissa of 53 bits, or the least one. -/
def exponentOf (num den : Nat) : Int :=
  let e : Int := (num.log2 : Int) - (den.log2 : Int)
  let (n, d) := scale num den e
  max (if d ≤ n then e - 52 else e - 53) minExponent

/-- The number nearest to `num / den`. -/
def ofRatio (negative : Bool) (num den : Nat) : Double :=
  if num = 0 then zero negative
  else
    let q := exponentOf num den
    let (n, d) := scale num den q
    let m := roundEven n d
    let (m, q) := if m = Nat.pow 2 53 then (Nat.pow 2 52, q + 1) else (m, q)
    if maxExponent < q then .infinite negative else .finite negative m q

def ofNat (n : Nat) : Double := ofRatio false n 1

/-- The number of decimal digits of `n`, one for zero. -/
def digitCount (n : Nat) : Nat := (Nat.toDigits 10 n).length

/-- The number nearest to `digits * 10 ^ exponent`; powers far out of range are not formed. -/
def ofDecimal (negative : Bool) (digits : Nat) (exponent : Int) : Double :=
  if digits = 0 then zero negative
  else
    let reach : Int := exponent + digitCount digits
    if 400 < reach then .infinite negative
    else if reach < -400 then zero negative
    else if 0 ≤ exponent then ofRatio negative (digits * Nat.pow 10 exponent.toNat) 1
    else ofRatio negative digits (Nat.pow 10 (-exponent).toNat)

/-! ## Multiplication and division -/

/-- The fraction `m * 2 ^ q`. -/
def fraction (m : Nat) (q : Int) : Nat × Nat :=
  if 0 ≤ q then (m * Nat.pow 2 q.toNat, 1) else (m, Nat.pow 2 (-q).toNat)

/-- The product; only finite numbers are multiplied here, all else gives NaN. -/
def mul : Double → Double → Double
  | .finite s m q, .finite t n r =>
    let (num, den) := fraction (m * n) (q + r)
    ofRatio (s != t) num den
  | _, _ => .nan

/-- The quotient of a finite number by a finite number other than zero; all else gives NaN. -/
def div : Double → Double → Double
  | .finite s m q, .finite t n r =>
    if n = 0 then .nan
    else
      let (num, den) := fraction m (q - r)
      ofRatio (s != t) num (den * n)
  | _, _ => .nan

/-- The whole number, where the value is one. -/
def whole? : Double → Option Nat
  | .finite _ m q =>
    if 0 ≤ q then some (m * Nat.pow 2 q.toNat)
    else if m % Nat.pow 2 (-q).toNat = 0 then some (m / Nat.pow 2 (-q).toNat) else none
  | _ => none

end Double
end PluginTools
