/-
Patterns of a case. Nothing of a pattern is kept, so that these rules only say where one ends.
-/
import PluginTools.Source.Operator

namespace PluginTools.Rules

variable (r : Rules)

/-- Names with dots between them. -/
def dottedName (p : Place) (cs : List Char) : Option (List Char) := do
  let (_, stop) ← Word.read? cs
  let step (_ : Unit) (cs : List Char) : Option (Unit × List Char) := do
    let (_, stop) ← p.within.name? (← p.after? '.' cs)
    some ((), stop)
  some (Reading.repeated step () stop).2

/-- Patterns in brackets, from behind the opening one to behind the closing one. -/
def patternsIn (p : Place) (close : Char) (item : Place → List Char → Option (List Char)) (cs : List Char) :
    Option (List Char) := do
  let q := p.bracketed
  let start ← q.operand? cs
  match start with
  | c :: stop =>
    if c = close then some stop
    else
      let item (cs : List Char) := (item q cs).map ((), ·)
      let (_, stop) ← q.list? item start
      q.after? close (q.optionalComma stop)
  | [] => .none

/-- A number, or a complex number as a sum. -/
def numberPattern (p : Place) (cs : List Char) : Option (List Char) := do
  let (_, stop) ← Numeral.read? cs
  let second : Option (List Char) := do
    match ← p.next? stop with
    | '+' :: behind | '-' :: behind =>
      let (_, stop) ← Numeral.read? (← p.within.next? behind)
      some stop
    | _ => .none
  some (second.getD stop)

/-- A star or two and a name. -/
def starPattern (p : Place) (cs : List Char) : Option (List Char) :=
  match cs with
  | '*' :: '*' :: behind | '*' :: behind => (p.within.name? behind).map Prod.snd
  | _ => .none

/-- Words that stand for themselves in a pattern. -/
def isConstantPattern (word : List Char) : Bool :=
  ["None", "True", "False", "_"].any fun w => word == w.toList

/-- A name with dots and perhaps patterns in parentheses. -/
def namePattern (p : Place) (cs : List Char) : Option (List Char) := do
  let (w, behind) ← Word.read? cs
  if isConstantPattern w then some behind
  else
    let stop ← dottedName p cs
    match p.after? '(' stop with
    | some behind => patternsIn p ')' r.pattern behind
    | .none => some stop

/-- A pattern of a dictionary: a key, which is any pattern, and a pattern; or stars and a name alone. -/
def keyPattern (p : Place) (cs : List Char) : Option (List Char) :=
  let pair := do
    let behind ← p.within.after? ':' (← r.simplePattern p.within cs)
    r.pattern p (← p.within.operand? behind)
  match pair with
  | some stop => some stop
  | .none => starPattern p cs

/-- A pattern without bars in it. -/
def patternAtom (p : Place) (cs : List Char) : Option (List Char) :=
  match cs with
  | '[' :: behind => patternsIn p ']' r.pattern behind
  | '(' :: behind => patternsIn p ')' r.pattern behind
  | '\x7b' :: behind => patternsIn p '\x7d' r.keyPattern behind
  | '*' :: _ => starPattern p cs
  | '-' :: behind => (p.within.next? behind).bind (numberPattern p)
  | _ =>
    if Layout.startsString cs then (r.strings p cs).map Prod.snd
    else
      match numberPattern p cs with
      | some stop => some stop
      | .none => r.namePattern p cs

/-- A pattern, perhaps with more patterns behind bars. -/
def simplePatternRule (p : Place) (cs : List Char) : Option (List Char) := do
  let stop ← r.patternAtom p cs
  let step (_ : Unit) (cs : List Char) : Option (Unit × List Char) := do
    let behind ← p.after? '|' cs
    (r.patternAtom p (← p.within.operand? behind)).map ((), ·)
  some (Reading.repeated step () stop).2

/-- A name and a pattern behind an equals sign. -/
def keywordPattern (p : Place) (cs : List Char) : Option (List Char) := do
  let (w, behind) ← Word.read? cs
  if isConstantPattern w then .none
  let behind ← p.after? '=' behind
  r.simplePatternRule p (← p.within.operand? behind)

/-- A pattern of a case: a simple one or one for a keyword, and then names that it is given. -/
def patternRule (p : Place) (cs : List Char) : Option (List Char) := do
  let stop ← match r.keywordPattern p cs with
    | some stop => some stop
    | .none => r.simplePatternRule p cs
  let step (_ : Unit) (cs : List Char) : Option (Unit × List Char) := do
    let (_, stop) ← p.within.name? (← p.word? "as" cs)
    some ((), stop)
  some (Reading.repeated step () stop).2

end PluginTools.Rules
