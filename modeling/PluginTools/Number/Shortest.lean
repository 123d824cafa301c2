/-
The shortest decimal digits that read back as a given binary64 number, and their layout as text. The
numbers that round to `m * 2 ^ q` fill an interval around it, whose ends belong to it exactly when `m`
is even; of the decimal grids with one digit, two digits and so on, the first with a point in that
interval gives the digits, and of two such points the nearer one.
-/
import PluginTools.Number.Double

namespace PluginTools
namespace Double

/-- The greatest `e` with `10 ^ e ≤ num / den`, for the fraction of a positive binary64 number. -/
def decimalExponent (num den : Nat) : Int :=
  let guess : Int := (((num.log2 : Int) - (den.log2 : Int)) * 1233) / 4096
  let fits (e : Int) : Bool :=
    if 0 ≤ e then decide (Nat.pow 10 e.toNat * den ≤ num) else decide (den ≤ num * Nat.pow 10 (-e).toNat)
  if fits (guess + 1) then (if fits (guess + 2) then guess + 2 else guess + 1)
  else if fits guess then guess
  else guess - 1

/-- The point of the grid of multiples of `10 ^ p` that rounds to `m * 2 ^ q` and is nearest to it.
On a tie the greater point is taken. -/
def gridPoint? (m : Nat) (q p : Int) : Option Nat :=
  let value := 4 * m
  let low := if m = Nat.pow 2 52 ∧ minExponent < q then value - 1 else value - 2
  let high := value + 2
  let a := Nat.pow 10 p.toNat * Nat.pow 2 (2 - q).toNat
  let b := Nat.pow 2 (q - 2).toNat * Nat.pow 10 (-p).toNat
  let below := value * b / a
  let inside (x y : Nat) : Bool := if m % 2 = 0 then decide (x ≤ y) else decide (x < y)
  match inside (low * b) (below * a), inside ((below + 1) * a) (high * b) with
  | true, false => some below
  | false, true => some (below + 1)
  | true, true => some (if 2 * (value * b) < (2 * below + 1) * a then below else below + 1)
  | false, false => none

/-- The first grid with a point, from the grid of `count` digits on; `top` is the exponent of the
leading digit. -/
def firstGrid (m : Nat) (q top : Int) : Nat → Nat → Nat × Int
  | 0, _ => (m, q)
  | more + 1, count =>
    let p := top + 1 - count
    match gridPoint? m q p with
    | some digits => (digits, p)
    | none => firstGrid m q top more (count + 1)

/-- Moves trailing zeros of the digits into the exponent. -/
def dropZeros : Nat → Nat → Int → Nat × Int
  | 0, digits, p => (digits, p)
  | fuel + 1, digits, p =>
    if digits ≠ 0 ∧ digits % 10 = 0 then dropZeros fuel (digits / 10) (p + 1) else (digits, p)

/-- The fewest digits `d` and the exponent `p` such that `d * 10 ^ p` reads back as `m * 2 ^ q`;
seventeen digits always do. -/
def shortest (m : Nat) (q : Int) : Nat × Int :=
  let (num, den) := fraction m q
  let (digits, p) := firstGrid m q (decimalExponent num den) 17 1
  dropZeros 17 digits p

/-! ## Layout -/

/-- Digits with `scale` places before the decimal point, without a sign; nothing follows a whole number. -/
def positional (digits : List Char) (scale : Int) : List Char :=
  if scale ≤ 0 then '0' :: '.' :: (List.replicate (-scale).toNat '0' ++ digits)
  else if digits.length ≤ scale.toNat then digits ++ List.replicate (scale.toNat - digits.length) '0'
  else digits.take scale.toNat ++ '.' :: digits.drop scale.toNat

/-- One digit before the point and a signed exponent. -/
def scientific (digits : List Char) (scale : Int) : List Char :=
  let e := scale - 1
  let places := match digits with
    | [] => []
    | [d] => [d]
    | d :: ds => d :: '.' :: ds
  places ++ 'e' :: (if e < 0 then '-' else '+') :: Nat.toDigits 10 e.natAbs

/-- The shortest digits of a finite nonzero number and the place of its decimal point. -/
def digitsAndScale (m : Nat) (q : Int) : List Char × Int :=
  let (digits, p) := shortest m q
  let ds := Nat.toDigits 10 digits
  (ds, ds.length + p)

def signed (negative : Bool) (text : List Char) : List Char :=
  if negative then '-' :: text else text

/-- Shortest digits, never with an exponent and without a fraction on whole numbers. -/
def plainText : Double → List Char
  | .nan => "NaN".toList
  | .infinite s => signed s "inf".toList
  | .finite s m q =>
    signed s <| if m = 0 then ['0'] else
      let (ds, scale) := digitsAndScale m q
      positional ds scale

/-- Ten to the sixteenth, up to which a whole number is a literal with one decimal. -/
def wholeLimit : Nat := Nat.pow 10 16

/-- The text of a number as a literal: whole numbers below the limit keep one decimal. -/
def literalText (d : Double) : List Char :=
  match d.whole? with
  | some n => if n < wholeLimit then d.plainText ++ ".0".toList else d.plainText
  | none => d.plainText

/-- The text of a finite number as JSON: positional from 1e-5 up to 1e16 with at least one decimal,
with an exponent elsewhere. -/
def jsonText : Double → List Char
  | .finite s m q =>
    signed s <| if m = 0 then "0.0".toList else
      let (ds, scale) := digitsAndScale m q
      if -4 ≤ scale ∧ scale ≤ 16 then
        let text := positional ds scale
        if (ds.length : Int) ≤ scale then text ++ ".0".toList else text
      else scientific ds scale
  | _ => "null".toList

end Double
end PluginTools
