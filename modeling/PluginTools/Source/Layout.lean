/-
The blank space between two tokens and what it means. White space and comments separate tokens; the end of
a line and the column of the next token end statements and blocks, but only at a place where the grammar
lets them end. A join, the backslash that continues a line, separates tokens too, but it is kept: it is an
element of the construct that holds the tokens on both its sides.
-/

namespace PluginTools.Layout

/-- What blank space may stand for at a place. -/
structure Allowed where
  /-- A deeper block may begin here. -/
  indent : Bool
  /-- The block around the place may end here. -/
  dedent : Bool
  /-- A statement may end here. -/
  newline : Bool
  /-- A closing bracket may stand here. -/
  closer : Bool
  /-- A string may stand here. -/
  quote : Bool
  /-- A clause of the statement before may stand here. -/
  clause : Bool
deriving Repr, Inhabited

/-- What blank space leads to. -/
inductive Mark where
  /-- A token, at the given text. -/
  | token (rest : List Char)
  /-- The end of a statement; the text is that from the end of the last comment or join before it. -/
  | newline (rest : List Char)
  /-- The begin of a block at a column. -/
  | indent (column : Nat) (rest : List Char)
  /-- The end of the block around the place. -/
  | dedent (rest : List Char)
  /-- Nothing that can be read. -/
  | stuck
deriving Repr, Inhabited

/-- What follows a place: the joins in the blank space, each by its text, and what it leads to. -/
structure Gap where
  joins : List String
  mark : Mark
deriving Repr, Inhabited

/-! ## Margins -/

/-- A stretch of blank space: whether it ends a line, the column it leads to, the column of the first
comment line in it, and the text after it. -/
structure Margin where
  ended : Bool
  column : Nat
  comment : Option Nat
  rest : List Char
deriving Repr, Inhabited

/-- Reads on in a margin. A blank counts one column and a tab eight; a return or a form feed starts again
at the left edge. Comment lines are part of the margin only where `comments` says so, and then a comment
on a line that has not ended is no margin at all. -/
def Margin.read (comments : Bool) : (inComment : Bool) → Margin → List Char → Option Margin
  | _, m, [] => some { m with ended := true, column := 0, rest := [] }
  | true, m, c :: cs =>
    if c = '\n' then Margin.read comments false { m with column := 0 } cs
    else Margin.read comments true m cs
  | false, m, '\\' :: '\n' :: cs => Margin.read comments false m cs
  | false, m, '\\' :: '\r' :: '\n' :: cs => Margin.read comments false m cs
  | false, m, ['\\'] => some { m with ended := true, column := 0, rest := [] }
  | false, m, ['\\', '\r'] => some { m with ended := true, column := 0, rest := [] }
  | false, m, c :: cs =>
    if c = '\n' then Margin.read comments false { m with ended := true, column := 0 } cs
    else if c = ' ' then Margin.read comments false { m with column := m.column + 1 } cs
    else if c = '\t' then Margin.read comments false { m with column := m.column + 8 } cs
    else if c = '\r' ∨ c = '\x0c' then Margin.read comments false { m with column := 0 } cs
    else if c = '#' ∧ comments then
      if m.ended then Margin.read comments true { m with comment := some (m.comment.getD m.column) } cs
      else none
    else if c = '\\' then none
    else some { m with rest := c :: cs }

/-- The margin a text starts with. -/
def margin? (comments : Bool) (cs : List Char) : Option Margin :=
  Margin.read comments false ⟨false, 0, none, []⟩ cs

/-! ## Gaps -/

/-- White space between tokens; it includes characters that no margin holds. -/
def isSpace (c : Char) : Bool :=
  c == ' ' || c == '\n' || c == '\r' || c == '\t' || c == '\x0b' || c == '\x0c' ||
    c == '\ufeff' || c == '\u2060' || c == '\u200b'

def isQuote (c : Char) : Bool := c == '\x27' || c == '\x22' || c == '\x60'

/-- A letter that may stand before a quote. -/
def isQuotePrefix (c : Char) : Bool :=
  c == 'f' || c == 'F' || c == 'r' || c == 'R' || c == 'b' || c == 'B' || c == 'u' || c == 'U'

/-- Whether the text starts with a quote. -/
def startsQuote : List Char → Bool
  | c :: _ => isQuote c
  | [] => false

/-- Whether a string starts here: a quote, perhaps after letters. -/
def startsString (cs : List Char) : Bool := startsQuote (cs.dropWhile isQuotePrefix)

/-- What a margin means at a place in a block at `column`; none if it only separates tokens. `quiet` is
set inside a format string, where no block ends. -/
def boundary? (a : Allowed) (column : Nat) (quiet : Bool) (cs : List Char) (m : Margin) : Option Mark :=
  if m.ended && a.indent && column < m.column then some (.indent m.column cs)
  else if m.ended && (a.dedent || (!a.newline && !(a.quote && startsQuote m.rest) && !a.closer)) &&
      m.column < column && !quiet && (m.comment.all fun c => decide (c < column)) then
    some (.dedent cs)
  else if m.ended && a.newline then some (.newline cs)
  else if a.quote && m.comment.isNone && startsString m.rest then some (.token m.rest)
  else none

/-- The join a text starts with, and what follows it. The end of the source may stand for that of a line. -/
def join? : List Char → Option (String × List Char)
  | '\\' :: '\n' :: rest => some ("\\\n", rest)
  | '\\' :: '\r' :: '\n' :: rest => some ("\\\r\n", rest)
  | ['\\'] => some ("\\", [])
  | _ => none

/-- The mark that blank space leads to and the joins on the way, read again after each comment and join. A
join right before a string is part of the space around the string and counts for nothing. -/
def readFrom (a : Allowed) (column : Nat) (quiet : Bool) : Nat → List Char → Gap
  | 0, _ => ⟨[], .stuck⟩
  | fuel + 1, cs =>
    let margin := margin? (a.indent || a.dedent || a.newline || a.clause) cs
    match margin.bind (boundary? a column quiet cs) with
    | some mark => ⟨[], mark⟩
    | none =>
      let start := cs.dropWhile isSpace
      match join? start with
      | some (join, rest) =>
        let gap := readFrom a column quiet fuel rest
        { gap with joins := join :: gap.joins }
      | none =>
        if start.head? = some '#' then readFrom a column quiet fuel (start.dropWhile (· != '\n'))
        else if startsString start then ⟨[], .stuck⟩
        else ⟨[], .token start⟩

/-- What follows a place in a block at `column`. -/
def read (a : Allowed) (column : Nat) (quiet : Bool) (cs : List Char) : Gap :=
  readFrom a column quiet (cs.length + 1) cs

end PluginTools.Layout
