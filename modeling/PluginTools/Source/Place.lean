/-
Reading with a rest: a reader takes a text and gives a value with the text that follows it, or nothing.
A place says what may come next where an operand ends, which is all that the grammar around it has to
tell a reader.
-/
import PluginTools.Source.Layout
import PluginTools.Text.Word

namespace PluginTools

namespace Reading

/-- Repeats a step while it succeeds, up to a number of times. -/
def iterate (step : α → List Char → Option (α × List Char)) : Nat → α → List Char → α × List Char
  | 0, a, cs => (a, cs)
  | fuel + 1, a, cs =>
    match step a cs with
    | some (a, cs) => iterate step fuel a cs
    | none => (a, cs)

/-- Repeats a step while it succeeds. -/
def repeated (step : α → List Char → Option (α × List Char)) (a : α) (cs : List Char) : α × List Char :=
  iterate step cs.length a cs

end Reading

/-- The text from one place up to a later one. -/
def between (start stop : List Char) : String :=
  String.ofList (start.take (start.length - stop.length))

/-- What an operand is the first part of. -/
inductive Opening where
  /-- A statement, or the right side of an assignment. -/
  | statement
  /-- An item of a list, a set or a tuple, or an argument. -/
  | item
  | neither
deriving DecidableEq, Repr, Inhabited

/-- Where an operand stands. -/
structure Place where
  /-- The column of the block around it. -/
  column : Nat
  /-- Whether a statement may end after it. -/
  line : Bool
  /-- Whether a closing bracket may follow it. -/
  closer : Bool
  /-- Whether it stands inside a format string. -/
  quiet : Bool
  /-- Whether the clauses of a comprehension may follow it. -/
  clause : Bool
  /-- What it opens. -/
  opening : Opening
deriving Repr, Inhabited

namespace Place

/-- A simple statement in a block at a column. -/
def lineAt (column : Nat) : Place := ⟨column, true, false, false, false, .neither⟩

/-- Inside a construct that has to go on. -/
def within (p : Place) : Place :=
  { p with line := false, closer := false, clause := false, opening := .neither }

/-- Inside brackets that may close. -/
def bracketed (p : Place) : Place := { p.within with closer := true }

/-- Where the clauses of a comprehension may follow too. -/
def comprehended (p : Place) : Place := { p with clause := true }

/-- At the end of a statement. -/
def ending (p : Place) : Place := { p with line := true, closer := false }

/-- At the begin of an item. -/
def item (p : Place) : Place := { p with opening := .item }

/-- Behind an operator or a comma. -/
def later (p : Place) : Place := { p with opening := .neither }

/-! ## Tokens -/

def gap (p : Place) (quote : Bool) (cs : List Char) : Layout.Gap :=
  Layout.read ⟨false, false, p.line, p.closer, quote, false⟩ p.column p.quiet cs

/-- The joins before the next token, and the token; `quote` says whether it may be a string. -/
def token? (p : Place) (quote : Bool) (cs : List Char) : Option (List String × List Char) :=
  match p.gap quote cs with
  | ⟨joins, .token rest⟩ => some (joins, rest)
  | _ => none

/-- The next token, where something other than a string may come. -/
def next? (p : Place) (cs : List Char) : Option (List Char) := (p.token? false cs).map Prod.snd

/-- The next token, where an operand may come. -/
def operand? (p : Place) (cs : List Char) : Option (List Char) := (p.token? true cs).map Prod.snd

/-- The joins before the given mark and the text after it, if it is the next token. -/
def mark? (p : Place) (mark : Char) (cs : List Char) : Option (List String × List Char) :=
  match p.token? false cs with
  | some (joins, c :: rest) => if c = mark then some (joins, rest) else none
  | _ => none

/-- The text after the given mark, if it is the next token. -/
def after? (p : Place) (mark : Char) (cs : List Char) : Option (List Char) := (p.mark? mark cs).map Prod.snd

/-- The text after the given word, if it is the next token. -/
def word? (p : Place) (word : String) (cs : List Char) : Option (List Char) :=
  (p.next? cs).bind (Word.after? word)

/-- The next token as a name, whatever word it is. -/
def name? (p : Place) (cs : List Char) : Option (String × List Char) := do
  let (w, rest) ← Word.read? (← p.next? cs)
  some (String.ofList w, rest)

/-- The end of a statement; the text after it starts behind its last comment. -/
def ended? (p : Place) (cs : List Char) : Option (List Char) :=
  match (p.ending.gap false cs).mark with
  | .newline rest => some rest
  | _ => none

/-- Whether the line ends here and the statement with it. -/
def endsLine (p : Place) (cs : List Char) : Bool := p.line && (p.ended? cs).isSome

/-! ## Lists -/

/-- More elements: items, each behind a comma, and what `join` makes of the joins around the commas. `p` is
the place of the items and `after` that behind a comma. -/
def elements (p after : Place) (join : String → List α) (item : List Char → Option (α × List Char)) :
    Nat → List Char → List α × List Char
  | 0, cs => ([], cs)
  | fuel + 1, cs =>
    let one := do
      let (before, rest) ← p.mark? ',' cs
      let (behind, start) ← after.token? true rest
      let (x, rest) ← item start
      some ((before ++ behind).flatMap join ++ [x], rest)
    match one with
    | some (xs, rest) =>
      let (ys, rest) := elements p after join item fuel rest
      (xs ++ ys, rest)
    | none => ([], cs)

/-- More items, each behind a comma. -/
def items (p after : Place) (item : List Char → Option (α × List Char)) (cs : List Char) :
    List α × List Char :=
  p.elements after (fun _ => []) item cs.length cs

/-- One item or more with commas between them; an item may follow wherever an operand of `p` may. -/
def list? (p : Place) (item : List Char → Option (α × List Char)) (cs : List Char) :
    Option (List α × List Char) :=
  (item cs).map fun (x, rest) =>
    let (xs, rest) := p.items p item rest
    (x :: xs, rest)

/-- The text behind a comma, if one comes next. -/
def optionalComma (p : Place) (cs : List Char) : List Char := (p.after? ',' cs).getD cs

/-- The text behind a closing mark, which a comma may stand before, and the joins before both. -/
def close? (p : Place) (mark : Char) (cs : List Char) : Option (List String × List Char) :=
  let (before, rest) := (p.mark? ',' cs).getD ([], cs)
  (p.mark? mark rest).map fun (behind, stop) => (before ++ behind, stop)

/-- Whether a comma comes next. -/
def hasComma (p : Place) (cs : List Char) : Bool := (p.after? ',' cs).isSome

end Place
end PluginTools
