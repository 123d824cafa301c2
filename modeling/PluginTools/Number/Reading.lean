/-
Reading numbers from text: whole numbers in a base, decimal numbers with a fraction and an exponent,
and the names of the values that are no finite number.
-/
import PluginTools.Number.Double

namespace PluginTools.Number

/-- The value of a digit of a base of up to sixteen, in either case. -/
def digitValue? (c : Char) : Option Nat :=
  if '0' ≤ c ∧ c ≤ '9' then some (c.toNat - 48)
  else if 'a' ≤ c ∧ c ≤ 'f' then some (c.toNat - 87)
  else if 'A' ≤ c ∧ c ≤ 'F' then some (c.toNat - 55)
  else none

section

variable {c : Char} (hc : 128 ≤ c.toNat)

include hc

/-- Beyond ASCII there are no digits. -/
theorem digitValue?_of_le : digitValue? c = none := by
  have hle : ∀ d : Char, d.toNat < 128 → ¬c ≤ d := fun d hd h => absurd (Nat.le_trans hc h) (Nat.not_le.2 hd)
  simp [digitValue?, hle '9' (by decide), hle 'f' (by decide), hle 'F' (by decide)]

/-- Beyond ASCII a character is its own lower case. -/
theorem toLower_of_le : c.toLower = c := by
  have hle : ¬c.val ≤ 'Z'.val := fun h => absurd (Nat.le_trans hc h) (by decide)
  exact dif_neg fun h => hle h.2

end

/-- The digit's value, if it is below the base. -/
def digitIn? (base : Nat) (c : Char) : Option Nat :=
  (digitValue? c).filter (· < base)

/-- Reads digits onto a value already read. -/
def digits? (base : Nat) (value : Nat) : List Char → Option Nat
  | [] => some value
  | c :: cs => do digits? base (value * base + (← digitIn? base c)) cs

/-- A whole number: at least one digit and nothing else. -/
def whole? (base : Nat) (cs : List Char) : Option Nat :=
  if cs.isEmpty then none else digits? base 0 cs

def isDigit (c : Char) : Bool := '0' ≤ c && c ≤ '9'

/-- The leading decimal digits and what follows them. -/
def span (cs : List Char) : List Char × List Char := cs.span isDigit

/-- An optional sign and at least one digit, up to the end. -/
def exponent? : List Char → Option Int
  | '+' :: cs => (whole? 10 cs).map Int.ofNat
  | '-' :: cs => (whole? 10 cs).map fun n => -(n : Int)
  | cs => (whole? 10 cs).map Int.ofNat

/-- A decimal number without a sign: digits on at least one side of the point, then perhaps an exponent. -/
def decimal? (negative : Bool) (cs : List Char) : Option Double := do
  let (before, rest) := span cs
  let (after, rest) := match rest with
    | '.' :: rest => span rest
    | rest => ([], rest)
  if before.isEmpty && after.isEmpty then none
  let e ← match rest with
    | [] => some 0
    | 'e' :: rest | 'E' :: rest => exponent? rest
    | _ => none
  let digits ← digits? 10 0 (before ++ after)
  some (.ofDecimal negative digits (e - after.length))

/-- A number with a sign; infinity and NaN may be written out, in any case. -/
def double? (cs : List Char) : Option Double :=
  match cs with
  | '-' :: cs => unsigned true cs
  | '+' :: cs => unsigned false cs
  | cs => unsigned false cs
where
  unsigned (negative : Bool) (cs : List Char) : Option Double :=
    let word := cs.map Char.toLower
    if word = "inf".toList ∨ word = "infinity".toList then some (.infinite negative)
    else if word = "nan".toList then some .nan
    else decimal? negative cs

end PluginTools.Number
