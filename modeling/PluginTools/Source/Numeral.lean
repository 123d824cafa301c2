/-
Number literals. A whole number is an `int` constant while its value fits sixty-three bits; a larger one,
and one with a suffix, is kept with its text. A number with a point or an exponent is a `float` constant,
unless it is imaginary.
-/
import PluginTools.Source.Expr

namespace PluginTools.Numeral

/-- Groups of digits, each perhaps with one underscore behind it, and what follows them. -/
def groups (afterDigit : Bool) : List Char → List Char × List Char
  | c :: cs =>
    if Number.isDigit c then
      let (taken, rest) := groups true cs
      (c :: taken, rest)
    else if afterDigit && c == '_' then
      let (taken, rest) := groups false cs
      (c :: taken, rest)
    else ([], c :: cs)
  | [] => ([], [])

/-- The digits of a base, with single underscores between or before them, and what follows. -/
def basedDigits (base : Nat) : List Char → List Char × List Char
  | '_' :: c :: cs =>
    if (Number.digitIn? base c).isSome then
      let (taken, rest) := basedDigits base cs
      ('_' :: c :: taken, rest)
    else ([], '_' :: c :: cs)
  | c :: cs =>
    if (Number.digitIn? base c).isSome then
      let (taken, rest) := basedDigits base cs
      (c :: taken, rest)
    else ([], c :: cs)
  | [] => ([], [])

/-- An exponent with its letter and sign, if there is a whole one, and what follows. -/
def exponent? : List Char → Option (List Char × List Char)
  | e :: cs =>
    if e = 'e' ∨ e = 'E' then
      let (sign, cs) := match cs with
        | '+' :: cs => (['+'], cs)
        | '-' :: cs => (['-'], cs)
        | cs => ([], cs)
      match groups false cs with
      | ([], _) => none
      | (ds, rest) => some (e :: (sign ++ ds), rest)
    else none
  | [] => none

/-- A letter of the given ones, if it comes next. -/
def suffix (letters : List Char) : List Char → List Char × List Char
  | c :: cs => if letters.contains c then ([c], cs) else ([], c :: cs)
  | [] => ([], [])

def longSuffix : List Char := ['L', 'l']

def imaginarySuffix : List Char := ['j', 'J']

/-- The number of a base that a letter behind a zero stands for. -/
def base? : Char → Option Nat
  | 'x' | 'X' => some 16
  | 'o' | 'O' => some 8
  | 'b' | 'B' => some 2
  | _ => none

def withoutUnderscores (cs : List Char) : List Char := cs.filter (· != '_')

/-- The greatest value of an `int` constant. -/
def maxInt : Nat := Nat.pow 2 63 - 1

/-- The constant of a whole number's digits, if its value fits. -/
def int? (base : Nat) (digits : List Char) : Option Expr :=
  match Number.whole? base (withoutUnderscores digits) with
  | some n => if n ≤ maxInt then some (.literal (.int n)) else none
  | none => none

/-- A whole number, given its text, its base, digits and suffix. -/
def wholeExpr (base : Nat) (text digits ending : List Char) : Expr :=
  match if ending.isEmpty then int? base digits else none with
  | some e => e
  | none => .verbatim "integer" (String.ofList text)

/-- A number with a point or an exponent, given its text and whether it is imaginary. -/
def floatExpr (text ending : List Char) : Expr :=
  match if ending.isEmpty then Number.decimal? false (withoutUnderscores text) else none with
  | some d => .literal (.float d)
  | none => .verbatim "float" (String.ofList (text ++ ending))

/-- A number after its leading part: an exponent and the letter of an imaginary number may follow. -/
def finishFloat (text rest : List Char) : Expr × List Char :=
  let (text, rest) := match exponent? rest with
    | some (e, rest) => (text ++ e, rest)
    | none => (text, rest)
  let (ending, rest) := suffix imaginarySuffix rest
  (floatExpr text ending, rest)

/-- A number that starts with a decimal digit. -/
def decimal (cs : List Char) : Expr × List Char :=
  let (before, rest) := groups false cs
  match rest with
  | '.' :: rest =>
    let (after, rest) := groups false rest
    finishFloat (before ++ '.' :: after) rest
  | rest =>
    if (exponent? rest).isSome then finishFloat before rest
    else
      let (ending, rest) := suffix (longSuffix ++ imaginarySuffix) rest
      (wholeExpr 10 (before ++ ending) before ending, rest)

/-- The number a text starts with. -/
def read? (cs : List Char) : Option (Expr × List Char) :=
  match cs with
  | '0' :: letter :: more =>
    match (base? letter).map fun base => (base, basedDigits base more) with
    | some (base, d :: ds, rest) =>
      let (ending, rest) := suffix longSuffix rest
      some (wholeExpr base ('0' :: letter :: d :: ds ++ ending) (d :: ds) ending, rest)
    | _ => some (decimal cs)
  | '.' :: rest =>
    match groups false rest with
    | ([], _) => none
    | (after, rest) => some (finishFloat ('.' :: after) rest)
  | c :: _ => if Number.isDigit c then some (decimal cs) else none
  | [] => none

end PluginTools.Numeral
