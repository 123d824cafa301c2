/-
Quoted text: how a string is written as a literal, and what the body of a literal means. `quote` writes
every string; `decode` reads the backslash escapes of a body that is not raw.
-/
import PluginTools.Number.Reading

namespace PluginTools.Quoted

/-- A digit below sixteen, in lower case. -/
def hexDigit (n : Nat) : Char := Nat.digitChar n

/-- The quote around a text: the apostrophe, unless only the double quote avoids an escape. -/
def quoteFor (cs : List Char) : Char :=
  if cs.contains '\x27' && !cs.contains '\x22' then '\x22' else '\x27'

/-- Control characters, which a literal shows by their code. -/
def isControl (c : Char) : Bool := c.toNat < 0x20 || c.toNat == 0x7f

/-- One character of a literal between the given quotes. -/
def escape (quote c : Char) : List Char :=
  if c = '\\' then ['\\', '\\']
  else if c = '\n' then ['\\', 'n']
  else if c = '\r' then ['\\', 'r']
  else if c = '\t' then ['\\', 't']
  else if c = quote then ['\\', c]
  else if isControl c then ['\\', 'x', hexDigit (c.toNat / 16), hexDigit (c.toNat % 16)]
  else [c]

/-- The literal of a text, on one line. -/
def quote (cs : List Char) : List Char :=
  let q := quoteFor cs
  q :: (cs.flatMap (escape q) ++ [q])

/-- Three double quotes, around a text that needs no escape. -/
def fence : List Char := ['\x22', '\x22', '\x22']

/-- Whether the fence occurs in a text. -/
def hasFence : List Char → Bool
  | [] => false
  | c :: cs => fence.isPrefixOf (c :: cs) || hasFence cs

/-- Whether a text may stand between fences as it is. -/
def isPlain (cs : List Char) : Bool :=
  !hasFence cs && !cs.contains '\\' && !cs.contains '\r' && cs.getLast? != some '\x22' &&
    cs.all fun c => 0x20 ≤ c.toNat || c == '\n' || c == '\t'

/-- The literal of a docstring: between fences where that needs no escape. -/
def docstring (cs : List Char) : List Char :=
  if isPlain cs then fence ++ cs ++ fence else quote cs

/-! ## Escapes -/

/-- The character of a code, unless it is a surrogate or too large. -/
def scalar? (n : Nat) : Option Char :=
  if h : n.isValidChar then some (Char.ofNatAux n h) else none

/-- The character of an escape of one letter. -/
def simpleEscape? : Char → Option Char
  | '\\' => some '\\'
  | '\x27' => some '\x27'
  | '\x22' => some '\x22'
  | 'n' => some '\n'
  | 't' => some '\t'
  | 'r' => some '\r'
  | 'a' => some '\x07'
  | 'b' => some '\x08'
  | 'f' => some '\x0c'
  | 'v' => some '\x0b'
  | _ => none

/-- How many digits follow the letter of an escape by code. -/
def codeWidth? : Char → Option Nat
  | 'x' => some 2
  | 'u' => some 4
  | 'U' => some 8
  | _ => none

/-- The number written by the digits of an escape by code; a plus sign may stand before them. -/
def codeValue? : List Char → Option Nat
  | '+' :: cs => Number.whole? 16 cs
  | cs => Number.whole? 16 cs

/-- What an escape by code stands for: its character, if all its digits are there and name one, and
otherwise its own text. -/
def codeEscape (letter : Char) (width : Nat) (digits : List Char) : List Char :=
  match (codeValue? digits).bind scalar? with
  | some c => if digits.length = width then [c] else '\\' :: letter :: digits
  | none => '\\' :: letter :: digits

def isOctal (c : Char) : Bool := '0' ≤ c && c ≤ '7'

/-- The octal digits at the head of a text, two at most. -/
def octalTail : List Char → List Char
  | a :: b :: _ => if isOctal a then (if isOctal b then [a, b] else [a]) else []
  | [a] => if isOctal a then [a] else []
  | [] => []

/-- Reads the escapes of a body; the number counts characters that an escape has already used up. -/
def decodeFrom : Nat → List Char → List Char
  | _, [] => []
  | skip + 1, _ :: cs => decodeFrom skip cs
  | 0, '\\' :: [] => ['\\']
  | 0, '\\' :: c :: cs =>
    if c = '\n' then decodeFrom 1 (c :: cs)
    else match simpleEscape? c with
      | some d => d :: decodeFrom 1 (c :: cs)
      | none => match codeWidth? c with
        | some width => codeEscape c width (cs.take width) ++ decodeFrom (1 + width) (c :: cs)
        | none =>
          if isOctal c then
            let more := octalTail cs
            ((Number.digits? 8 0 (c :: more)).bind scalar?).toList ++ decodeFrom (1 + more.length) (c :: cs)
          else '\\' :: c :: decodeFrom 1 (c :: cs)
  | 0, c :: cs => c :: decodeFrom 0 cs

/-- The text that the body of a literal stands for. -/
def decode (body : List Char) : List Char := decodeFrom 0 body

/-! ## Literals -/

/-- The text between two copies of a delimiter. -/
def between? (delimiter cs : List Char) : Option (List Char) :=
  if delimiter.isPrefixOf cs then
    let rest := cs.drop delimiter.length
    if delimiter.isSuffixOf rest then some (rest.take (rest.length - delimiter.length)) else none
  else none

/-- The delimiters of literals, the longer ones first. -/
def delimiters : List (List Char) := [fence, ['\x27', '\x27', '\x27'], ['\x22'], ['\x27']]

/-- The text of a literal's own letters, quotes and body. Letters stand before the first quote; one that
asks for a format string or for bytes gives no text, and one that asks for a raw string no escapes. -/
def literal? (cs : List Char) : Option (List Char) :=
  let isMark (c : Char) : Bool := c == '\x27' || c == '\x22'
  let letters := (cs.takeWhile fun c => !isMark c).map Char.toLower
  let quoted := cs.dropWhile fun c => !isMark c
  if letters.contains 'f' || letters.contains 'b' then none
  else
    (delimiters.findSome? (between? · quoted)).map fun body =>
      if letters.contains 'r' then body else decode body

end PluginTools.Quoted
