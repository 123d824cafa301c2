/-
Where a string in the source ends. Its text is read in runs of plain characters. A run may not hold the end
of a line unless it starts with one; where a run does not end well, its place is read as an escape, an
interpolation or a comment instead, and the next run starts behind that.
-/
import PluginTools.Source.Layout
import PluginTools.Text.Quoted

namespace PluginTools

/-- How a string is opened: its letters, its quote, and whether the quote is tripled. -/
structure Quotation where
  format : Bool
  raw : Bool
  bytes : Bool
  mark : Char
  triple : Bool
deriving Repr, Inhabited

namespace Quotation

/-- The opening of a string and the text after it. -/
def open? (cs : List Char) : Option (Quotation × List Char) :=
  let letters := (cs.takeWhile Layout.isQuotePrefix).map Char.toLower
  match cs.dropWhile Layout.isQuotePrefix with
  | [] => none
  | c :: rest =>
    if Layout.isQuote c then
      let triple := c != '\x60' && [c, c].isPrefixOf rest
      some (⟨letters.contains 'f', letters.contains 'r', letters.contains 'b', c, triple⟩,
        if triple then rest.drop 2 else rest)
    else none

/-! ## Escapes -/

/-- How many characters of the text are digits below sixteen, up to a number. -/
def hexRun (most : Nat) (cs : List Char) : Nat :=
  ((cs.take most).takeWhile fun c => (Number.digitValue? c).isSome).length

/-- The length of the escape behind a backslash; none if the backslash stands for itself. -/
def escapeLength? : List Char → Option Nat
  | [] => none
  | c :: cs =>
    if c = 'x' then (if hexRun 2 cs = 2 then some 3 else none)
    else if c = 'u' then (if hexRun 4 cs = 4 then some 5 else none)
    else if c = 'U' then (if hexRun 8 cs = 8 then some 9 else none)
    else if Number.isDigit c then some (((c :: cs).take 3).takeWhile Number.isDigit).length
    else if c = '\n' then some 1
    else if c = '\r' then (if cs.head? = some '\n' then some 2 else none)
    else if c = 'N' then
      match cs with
      | '\x7b' :: name =>
        let inside := (name.takeWhile (· != '\x7d')).length
        if 0 < inside ∧ inside < name.length then some (inside + 3) else none
      | _ => none
    else if "'\"abfrntv\\".toList.contains c then some 1
    else none

/-! ## Runs -/

/-- What a run of characters leads to. -/
inductive Run where
  /-- The next run or an escape, at a text. -/
  | more (rest : List Char)
  /-- The end of the string. -/
  | closed (rest : List Char)
  /-- Nothing: the run cannot stand where it starts. -/
  | broken
deriving Repr, Inhabited

/-- How a backslash in a raw string is passed over: it protects a quote, a backslash and an end of line. -/
def afterRaw (q : Quotation) (cs : List Char) : List Char :=
  let cs := match cs with
    | c :: rest => if c = q.mark ∨ c = '\\' then rest else c :: rest
    | [] => []
  match cs with
  | '\r' :: '\n' :: rest => rest
  | '\r' :: rest => rest
  | '\n' :: rest => rest
  | rest => rest

/-- What a quotation mark does inside a string of triple marks, from behind the mark on. A single or a
double one is part of the string. -/
def tripled (q : Quotation) (filled : Bool) (start : List Char) (cs : List Char) : Run :=
  if [q.mark, q.mark].isPrefixOf cs then if filled then .more start else .closed (cs.drop 2)
  else .more (if cs.head? = some q.mark then cs.drop 1 else cs)

/-- Reads a run; `filled` says that it has characters already. Backslashes in a raw string do not count,
and in a string of octets the letters of characters by name or code are no escapes. -/
def run (q : Quotation) : Nat → (filled : Bool) → List Char → Run
  | 0, _, _ => .broken
  | _ + 1, _, [] => .broken
  | fuel + 1, filled, c :: cs =>
    if q.format && (c == '\x7b' || c == '\x7d') then if filled then .more (c :: cs) else .broken
    else if c = '\\' && q.raw then q.run fuel filled (q.afterRaw cs)
    else if c = '\\' then
      if q.bytes && (cs.head?.any fun l => l == 'N' || l == 'u' || l == 'U') then q.run fuel true (cs.drop 2)
      else if filled then .more (c :: cs) else .broken
    else if c = q.mark then
      if q.triple then q.tripled filled (c :: cs) cs
      else if filled then .more (c :: cs) else .closed cs
    else if c = '\n' && filled && !q.triple then .broken
    else q.run fuel true cs

/-! ## The end -/

/-- What follows a doubled brace of a format string. -/
def afterBraces? (q : Quotation) : List Char → Option (List Char)
  | '\x7b' :: '\x7b' :: rest => if q.format then some rest else none
  | '\x7d' :: '\x7d' :: rest => if q.format then some rest else none
  | _ => none

/-- The text after the closing quote, and whether something has been interpolated. -/
def close? (q : Quotation) (interpolation : List Char → Option (List Char)) :
    Nat → (filled : Bool) → List Char → Option (Bool × List Char)
  | 0, _, _ => none
  | fuel + 1, filled, cs =>
    match q.afterBraces? cs with
    | some rest => close? q interpolation fuel filled rest
    | none =>
      match q.run (cs.length + 1) false cs with
      | .closed rest => some (filled, rest)
      | .more rest => close? q interpolation fuel filled rest
      | .broken =>
        match cs with
        | '\\' :: rest => close? q interpolation fuel filled (rest.drop ((escapeLength? rest).getD 0))
        | _ =>
          let start := cs.dropWhile Layout.isSpace
          match Layout.join? start with
          | some (_, rest) => close? q interpolation fuel filled rest
          | none =>
            match start with
            | '\x7b' :: rest => (interpolation rest).bind (close? q interpolation fuel true)
            | '#' :: rest => close? q interpolation fuel filled (rest.dropWhile (· != '\n'))
            | _ => none

/-- Whether a string has something interpolated, and the text after it. -/
def read? (interpolation : List Char → Option (List Char)) (cs : List Char) : Option (Bool × List Char) :=
  match open? cs with
  | some (q, rest) => q.close? interpolation (rest.length + 1) false rest
  | none => none

end Quotation
end PluginTools
