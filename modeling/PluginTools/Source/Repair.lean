/-
Where a malformed source goes wrong: at the place of its cheapest repair. A repair leaves out a stretch
of tokens around the first one that cannot follow what stands before it, or closes a bracket there. A
line that ends inside the stretch does not count, so a statement is only given up as a whole.
-/
import PluginTools.Source.Parser
import PluginTools.Source.Position

namespace PluginTools.Repair

/-! ## Tokens -/

/-- A token by the numbers of characters before it and up to its end. -/
structure Span where
  start : Nat
  stop : Nat
deriving DecidableEq, Repr, Inhabited

/-- The marks of more than one character. -/
def marks : List (List Char) :=
  ["**=", "//=", ">>=", "<<=", "...", "->", ":=", "==", "!=", "<=", ">=", "<>", "**", "//", ">>", "<<",
    "+=", "-=", "*=", "/=", "%=", "@=", "&=", "|=", "^="].map String.toList

/-- What follows an interpolation of a format string. -/
def afterInterpolation (cs : List Char) : Option (List Char) :=
  match cs.dropWhile (· != '\x7d') with
  | [] => none
  | _ :: rest => some rest

/-- What follows the token at the start of a text. A string that does not end is only its opening. -/
def afterToken (cs : List Char) : List Char :=
  if Layout.startsString cs then
    match Quotation.read? afterInterpolation cs, Quotation.open? cs with
    | some (_, rest), _ => rest
    | none, some (_, rest) => rest
    | none, none => cs.tail
  else match Word.read? cs with
    | some (_, rest) => rest
    | none =>
      if cs.head?.any Number.isDigit then cs.dropWhile fun c => Word.isContinuing c || c == '.'
      else match marks.find? (·.isPrefixOf cs) with
        | some mark => cs.drop mark.length
        | none => cs.tail

/-- The tokens of a text from a number of characters on. -/
def spansFrom : Nat → Nat → List Char → List Span
  | 0, _, _ => []
  | _ + 1, _, [] => []
  | fuel + 1, offset, c :: cs =>
    if Layout.isSpace c then spansFrom fuel (offset + 1) cs
    else if c = '#' then
      let rest := cs.dropWhile (· != '\n')
      spansFrom fuel (offset + 1 + (cs.length - rest.length)) rest
    else if c = '\\' ∧ cs.head? = some '\n' then spansFrom fuel (offset + 1) cs
    else
      let rest := afterToken (c :: cs)
      let stop := offset + (cs.length + 1 - rest.length)
      ⟨offset, stop⟩ :: spansFrom fuel stop rest

def spans (cs : List Char) : List Span := spansFrom (cs.length + 1) 0 cs

/-! ## What can be read -/

def reads (cs : List Char) : Bool := (Source.parse? cs).isSome

/-- The numbers of characters before each line. -/
def lineStarts (cs : List Char) : List Nat :=
  0 :: ((List.range cs.length).zip cs).filterMap fun (i, c) => if c = '\n' then some (i + 1) else none

/-- How much of a malformed source can be read: the most whole lines. -/
def readable (cs : List Char) : Nat :=
  ((lineStarts cs).reverse.find? fun n => n < cs.length && reads (cs.take n)).getD 0

/-- The brackets still open at the end of a text, as their closing ones. -/
def closersFrom (opened : List Char) : List Char → List Char
  | [] => opened
  | c :: cs =>
    if c = '(' then closersFrom (')' :: opened) cs
    else if c = '[' then closersFrom (']' :: opened) cs
    else if c = '\x7b' then closersFrom ('\x7d' :: opened) cs
    else if opened.head? = some c then closersFrom opened.tail cs
    else closersFrom opened cs

/-- The first characters of the tokens of a text that are no strings. -/
def heads (cs : List Char) : List Char :=
  (spans cs).filterMap fun s => if s.stop = s.start + 1 then cs[s.start]? else none

/-- Ways to go on inside brackets. -/
def fillers : List (List Char) :=
  ["", " x", ": x", " else x", " in x", " x else x", " x in x"].map String.toList

/-- Ways to go on behind brackets. -/
def endings : List (List Char) :=
  ["", ": x", " x", " x: x", " = x", " import x", " in x: x", "(): x", " x(): x", " def x(): x",
    "\ndef x(): x", "\nfinally: x", ": x\nfinally: x"].map String.toList

/-- Whether a text can be completed to a source, as far as a few ways to go on show it. -/
def isViable (cs : List Char) : Bool :=
  let closers := closersFrom [] (heads cs)
  fillers.any fun filler => endings.any fun ending => reads (cs ++ filler ++ closers ++ ending)

/-! ## Repairs -/

/-- A repair by its place and its cost. -/
structure Candidate where
  place : Nat
  cost : Nat
deriving DecidableEq, Repr, Inhabited

/-- The cheaper of two repairs; of two that cost the same the one further on. -/
def Candidate.better (a b : Candidate) : Candidate :=
  if a.cost < b.cost then a
  else if b.cost < a.cost then b
  else if b.place < a.place then a else b

/-- The cost of leaving out tokens: for the repair itself, and for each token, character and line. -/
def skipCost (cs : List Char) (skipped : List Span) : Nat :=
  let text := (cs.take ((skipped.getLast?.map Span.stop).getD 0)).drop ((skipped.head?.map Span.start).getD 0)
  500 + 100 * skipped.length + text.length + 30 * text.count '\n'

/-- The cost of a closing bracket that is missing. -/
def closeCost : Nat := 610

/-- Whether only blanks stand between a place and the line's begin. -/
def startsLine (cs : List Char) (place : Nat) : Bool :=
  let before := (cs.take place).reverse.dropWhile fun c => c == ' ' || c == '\t'
  before.isEmpty || before.head? == some '\n'

/-- Leaves out the tokens from one place up to the next token that stays, or to the end. -/
def skip? (cs : List Char) (skipped : List Span) (next : Option Span) : Option Candidate :=
  match skipped with
  | [] => none
  | first :: _ =>
    let ok := match next with
      | some s => reads (cs.take first.start ++ ' ' :: cs.drop s.start)
      | none => startsLine cs first.start && reads (cs.take first.start)
    if ok then some ⟨first.start, skipCost cs skipped⟩ else none

/-- Closes a bracket before a token. -/
def close? (cs : List Char) (previous next : Span) : Option Candidate :=
  if [')', ']', '\x7d'].any fun c => reads (cs.take previous.stop ++ c :: ' ' :: cs.drop next.start) then
    some ⟨previous.stop, closeCost⟩
  else none

/-- How many tokens on each side of the first wrong one are looked at. -/
def reach : Nat := 24

/-- All repairs that leave out tokens from among `before`, the last ones of which stand next to the
wrong token, and of `after`, which starts with it. -/
def skips (cs : List Char) (before after : List Span) : List Candidate :=
  (List.range (min before.length reach + 1)).flatMap fun back =>
    (List.range (min after.length reach + 1)).filterMap fun ahead =>
      if ahead < after.length ∧ ahead = reach then none
      else skip? cs (before.drop (before.length - back) ++ after.take ahead) after[ahead]?

/-- All repairs around the wrong token. -/
def candidates (cs : List Char) (before after : List Span) : List Candidate :=
  let closings := match before.getLast?, after with
    | some previous, next :: _ => (close? cs previous next).toList
    | _, _ => []
  skips cs before after ++ closings

/-- The place where a malformed source goes wrong, as a number of characters. -/
def place (cs : List Char) : Nat :=
  let base := readable cs
  let beyond := (spans cs).filter fun s => base ≤ s.start
  let before := beyond.takeWhile fun s => isViable (cs.take s.stop)
  let after := beyond.drop before.length
  match candidates cs before after with
  | [] => (beyond.head?.map Span.start).getD base
  | c :: rest => (rest.foldl Candidate.better c).place

end PluginTools.Repair

namespace PluginTools.Source

/-- The position at which a malformed source goes wrong. -/
def fault (cs : List Char) : Position := .behind (cs.take (Repair.place cs))

end PluginTools.Source
