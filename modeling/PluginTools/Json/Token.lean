/-
The tokens of JSON text. A string or number that is written correctly but stands for no value, because
of a lone surrogate, an octet outside every character or a number beyond binary64, is a token without
one: what may be skipped need not be readable.
-/
import PluginTools.Json.Value
import PluginTools.Text.Utf8

namespace PluginTools.Json

inductive Token where
  | openList
  | closeList
  | openObject
  | closeObject
  | comma
  | colon
  | null
  | bool (value : Bool)
  | text (value : Option String)
  | number (value : Option Json)
deriving Repr, Inhabited

namespace Token

/-- The text under a reader: characters, and gaps for octets that are part of none. -/
abbrev Source := List (Option Char)

/-! ## Numbers -/

/-- The leading digits and what follows them. -/
def digits : Source → List Char × Source
  | some c :: cs =>
    if Number.isDigit c then
      let (ds, rest) := digits cs
      (c :: ds, rest)
    else ([], some c :: cs)
  | cs => ([], cs)

/-- The powers of ten up to the greatest binary64 number. -/
def powerOfTen (n : Nat) : Double := .ofDecimal false 1 n

/-- A decimal number from at most sixty-four bits of digits: the digits are rounded first, then
multiplied or divided by a power of ten. None stands for a number that is too large. -/
def scaled (negative : Bool) (significand : Nat) (exponent : Int) : Option Double :=
  let start := Double.ofNat significand
  let result :=
    if 0 ≤ exponent then
      if 308 < exponent then (if significand = 0 then start else .infinite false)
      else start.mul (powerOfTen exponent.toNat)
    else descend 3 start (-exponent).toNat
  if result.isFinite then some (if negative then result.neg else result) else none
where
  /-- Divides by a power of ten, by no more than the three hundred and eighth at a time. -/
  descend : Nat → Double → Nat → Double
    | 0, _, _ => .zero false
    | fuel + 1, value, places =>
      if places ≤ 308 then value.div (powerOfTen places)
      else descend fuel (value.div (powerOfTen 308)) (places - 308)

/-- Takes digits into the significand while it stays below sixty-four bits; gives it, the number of
digits taken and whether one was left out. -/
def gather (significand taken : Nat) : List Char → Nat × Nat × Bool
  | [] => (significand, taken, false)
  | c :: cs =>
    let next := significand * 10 + (c.toNat - 48)
    if next < Nat.pow 2 64 then gather next (taken + 1) cs else (significand, taken, true)

/-- The value of a number by its parts: the digits before and after the point and the exponent. -/
def numberValue (negative : Bool) (before : List Char) (after : Option (List Char)) (exponent : Option Int) :
    Option Json :=
  let (significand, taken, full) := gather 0 0 before
  let dropped := before.length - taken
  match after, exponent with
  | none, none =>
    if full then (scaled negative significand dropped).map .float
    else if negative then
      if significand = 0 ∨ Nat.pow 2 63 < significand then some (.float (Double.ofNat significand).neg)
      else some (.int (-significand))
    else some (.int significand)
  | _, _ =>
    let fraction := after.getD []
    let (significand, places, _) := gather significand 0 fraction
    (scaled negative significand (dropped - places + exponent.getD 0)).map .float

/-- A sign and digits of an exponent; none if the digits are missing. -/
def exponentPart (cs : Source) : Option (Int × Source) :=
  let (negative, cs) := match cs with
    | some '+' :: cs => (false, cs)
    | some '-' :: cs => (true, cs)
    | cs => (false, cs)
  match digits cs with
  | ([], _) => none
  | (ds, rest) =>
    let n : Int := ((Number.digits? 10 0 ds).getD 0 : Nat)
    some (if negative then -n else n, rest)

/-- A number without its sign. A leading zero stands alone; a point and an exponent need digits. -/
def readNumber (negative : Bool) (cs : Source) : Option (Token × Source) := do
  let (before, rest) := digits cs
  match before with
  | [] => none
  | '0' :: _ :: _ => none
  | _ => pure ()
  let (after, rest) ← match rest with
    | some '.' :: rest =>
      match digits rest with
      | ([], _) => none
      | (ds, rest) => some (some ds, rest)
    | rest => some (none, rest)
  let (exponent, rest) ← match rest with
    | some 'e' :: rest | some 'E' :: rest => (exponentPart rest).map fun (e, rest) => (some e, rest)
    | rest => some (none, rest)
  some (.number (numberValue negative before after exponent), rest)

/-! ## Strings -/

/-- The four digits of a code, in either case. -/
def code? : Source → Option (Nat × Source)
  | some a :: some b :: some c :: some d :: rest => (Number.digits? 16 0 [a, b, c, d]).map (·, rest)
  | _ => none

def isHighSurrogate (n : Nat) : Bool := 0xd800 ≤ n && n ≤ 0xdbff

def isLowSurrogate (n : Nat) : Bool := 0xdc00 ≤ n && n ≤ 0xdfff

/-- The character of an escape of one letter. -/
def simpleEscape? : Char → Option Char
  | '\x22' => some '\x22'
  | '\\' => some '\\'
  | '/' => some '/'
  | 'b' => some '\x08'
  | 'f' => some '\x0c'
  | 'n' => some '\n'
  | 'r' => some '\r'
  | 't' => some '\t'
  | _ => none

/-- The characters of a string up to its closing quote, with a gap for each that has no value. A
control character or a malformed escape ends the text. -/
def stringFrom : Nat → Source → Option (List (Option Char) × Source)
  | 0, _ => none
  | fuel + 1, cs =>
    let more (c : Option Char) (rest : Source) := (stringFrom fuel rest).map fun (s, r) => (c :: s, r)
    match cs with
    | [] => none
    | none :: rest => more none rest
    | some '\x22' :: rest => some ([], rest)
    | some '\\' :: some 'u' :: rest => do
      let (high, rest) ← code? rest
      if isHighSurrogate high then
        match rest with
        | some '\\' :: some 'u' :: after =>
          match code? after with
          | some (low, after) =>
            if isLowSurrogate low then
              more (Quoted.scalar? (0x10000 + (high - 0xd800) * 0x400 + (low - 0xdc00))) after
            else more none rest
          | none => none
        | _ => more none rest
      else more (Quoted.scalar? high) rest
    | some '\\' :: some c :: rest => do more (← simpleEscape? c) rest
    | some c :: rest => if c.toNat < 0x20 ∨ c = '\\' then none else more c rest

def readString (cs : Source) : Option (Token × Source) :=
  (stringFrom (cs.length + 1) cs).map fun (s, rest) =>
    (.text ((Utf8.whole? s).map String.ofList), rest)

/-! ## Tokens -/

/-- The text after a word, if it starts with it. -/
def word? : List Char → Source → Option Source
  | [], cs => some cs
  | w :: ws, some c :: cs => if w = c then word? ws cs else none
  | _ :: _, _ => none

/-- The token that starts with a character. -/
def next? (c : Char) (cs : Source) : Option (Token × Source) :=
  if c = '[' then some (.openList, cs)
  else if c = ']' then some (.closeList, cs)
  else if c = '\x7b' then some (.openObject, cs)
  else if c = '\x7d' then some (.closeObject, cs)
  else if c = ',' then some (.comma, cs)
  else if c = ':' then some (.colon, cs)
  else if c = '\x22' then readString cs
  else if c = '-' then readNumber true cs
  else if c = 'n' then (word? "ull".toList cs).map (.null, ·)
  else if c = 't' then (word? "rue".toList cs).map (.bool true, ·)
  else if c = 'f' then (word? "alse".toList cs).map (.bool false, ·)
  else readNumber false (some c :: cs)

def isBlank (c : Char) : Bool := c == ' ' || c == '\n' || c == '\t' || c == '\r'

/-- The tokens of a text; `fuel` bounds their number. -/
def allFrom : Nat → Source → Option (List Token)
  | 0, _ => none
  | _ + 1, [] => some []
  | _ + 1, none :: _ => none
  | fuel + 1, some c :: cs =>
    if isBlank c then allFrom fuel cs
    else do
      let (t, rest) ← next? c cs
      (t :: ·) <$> allFrom fuel rest

def all? (cs : Source) : Option (List Token) := allFrom (cs.length + 1) cs

end Token
end PluginTools.Json
