/-
Operands in brackets and behind them: parentheses, lists, sets and dictionaries with their comprehensions,
subscripts with slices, and calls with their arguments.
-/
import PluginTools.Source.Signature

namespace PluginTools.Rules

variable (r : Rules)

/-! ## Comprehensions -/

/-- What a loop of a comprehension runs over: a conditional expression is none, nor is one the body of a
`lambda`, since an `if` opens the next clause. -/
def iterable (p : Place) (cs : List Char) : Option (Operand × List Char) :=
  if Word.opens "lambda" cs then r.lambda? p (r.expression p Level.conditional) cs
  else r.expression p Level.conditional cs

/-- A `for` clause, from its first word on. -/
def forClause (p : Place) (cs : List Char) : Option (List Char) := do
  let cs := ((Word.after? "async" cs).bind p.within.next?).getD cs
  let rest ← Word.after? "for" cs
  let rest ← r.targets p.within (← p.within.operand? rest)
  let rest ← p.within.word? "in" rest
  let isClause (cs : List Char) : Bool := Word.opens "for" cs || Word.opens "if" cs
  let item (cs : List Char) := if isClause cs then .none else r.iterable p cs
  let (_, rest) ← r.iterable p (← p.within.operand? rest)
  let (_, rest) := p.items p item rest
  some (p.optionalComma rest)

/-- Whether the clauses of a comprehension come next. -/
def startsClauses (p : Place) (cs : List Char) : Bool :=
  (p.next? cs).any fun cs => Word.opens "for" cs || Word.opens "async" cs

/-- One more clause of a comprehension. -/
def clause (p : Place) (cs : List Char) : Option (List Char) := do
  let cs ← p.next? cs
  match Word.after? "if" cs with
  | some rest =>
    let (_, rest) ← r.expression p Level.conditional (← p.within.operand? rest)
    some rest
  | .none => r.forClause p cs

/-- The clauses of a comprehension and its closing bracket. -/
def clauses (p : Place) (close : Char) (cs : List Char) : Option (List Char) := do
  let p := p.comprehended
  let cs ← p.next? cs
  let rest ← r.forClause p cs
  let ((), rest) := Reading.repeated (fun () cs => (r.clause p cs).map ((), ·)) () rest
  p.after? close rest

/-! ## Items -/

/-- Whether a star here can only belong to a whole expression. -/
def spreadsWord (p : Place) (cs : List Char) : Bool :=
  (p.within.operand? cs).any fun cs => Word.opens "not" cs || Word.opens "lambda" cs

/-- The value of a text that starts with a star, as an operand up to a given place. -/
def alone? (p : Place) (cs stop : List Char) : Option Operand :=
  match if spreadsWord p (cs.drop 1) then .none else r.expression p Level.lowest cs with
  | some (o, rest) => if rest.length = stop.length then some o else .none
  | .none => .none

/-- An item that may start with a star, which then belongs to the whole expression behind it. -/
def starItem (p : Place) (cs : List Char) : Option (Operand × List Char) :=
  let p := p.item
  match cs with
  | '*' :: rest => do
    let (_, stop) ← r.expression p Level.lowest (← p.within.operand? rest)
    let o := r.alone? p cs stop
    some (⟨.verbatim "list_splat" (between cs stop), .spread (o.map Operand.expr) (o.any Operand.isTarget)⟩, stop)
  | _ => r.expression p Level.lowest cs

/-- An item of a list, a set or a tuple. -/
def item (p : Place) (cs : List Char) : Option (Operand × List Char) :=
  match r.yielded? p cs with
  | some (o, stop) => some (o, stop)
  | .none => r.starItem p cs

/-- The value of the first item before others: a spread in parentheses is an item and no operand. -/
def firstValue (o : Operand) : Expr :=
  match o.form with
  | .enclosed text .. => .verbatim "parenthesized_list_splat" text
  | _ => o.expr

/-- The value of an item behind others. -/
def laterValue (o : Operand) : Expr := if o.isExpression then o.expr else firstValue o

/-- The value of the only item of a list. -/
def soleValue (o : Operand) : Expr :=
  match o.form with
  | .spread (some alone) _ => alone
  | _ => laterValue o

/-- What may stand behind the first item up to the closing bracket: more items, among which joins count. -/
structure Rest where
  items : List Operand
  comma : Bool
  /-- The joins before the closing bracket. -/
  joins : List String
deriving Repr, Inhabited

/-- The items that follow a first one, up to the closing bracket. -/
def moreItems (p : Place) (close : Char) (cs : List Char) : Option (Rest × List Char) :=
  let p := p.later
  let (os, rest) := p.elements p (fun j => [Operand.ofJoin j]) (r.item p) cs.length cs
  (p.close? close rest).map fun (joins, stop) => (⟨os, p.hasComma cs, joins⟩, stop)

/-- The values of a first item and of those behind it. -/
def values (first : Operand) (rest : Rest) : List Expr :=
  let value := if rest.comma then firstValue first else soleValue first
  value :: (rest.items.map laterValue ++ rest.joins.map Expr.ofJoin)

/-- A display of targets is a target. -/
def formOf (os : List Operand) : Form := if os.all Operand.isTarget then .display !os.isEmpty else .plain

/-! ## Parentheses and lists -/

/-- Whether an item ends here. -/
def endsItem (p : Place) (cs : List Char) : Bool :=
  match p.next? cs with
  | some (c :: _) => [',', ')', ']', '\x7d'].contains c
  | _ => false

/-- One operand in parentheses at `cs`, with the joins before and behind it. It has the value of what it
holds, unless a join stands beside that. A spread may be an item of the construct around the parentheses;
at the end of a line, and where it is no operand, they are a tuple with it as its item. -/
def wrapped (p : Place) (cs : List Char) (o : Operand) (before behind : List String) (stop : List Char) :
    Operand :=
  let own := between cs stop
  let hull (e : Expr) : Expr :=
    if (before ++ behind).isEmpty then e else .verbatim "parenthesized_expression" own
  let tuple (e : Expr) : Expr := .tuple (before.map Expr.ofJoin ++ e :: behind.map Expr.ofJoin)
  let choose (operand : Option Expr) (item : Expr) : Expr :=
    if p.endsLine stop then tuple item else (operand.map hull).getD (tuple item)
  match o.form with
  | .spread alone assignable => ⟨choose alone o.expr, .enclosed own (hull o.expr) alone.isSome assignable⟩
  | .enclosed inner spread isOperand assignable =>
    ⟨choose (if isOperand then some o.expr else .none) (.verbatim "parenthesized_list_splat" inner),
      .enclosed own (hull spread) isOperand assignable⟩
  | _ => ⟨hull o.expr, formOf [o]⟩

/-- What stands behind an opening parenthesis at `cs`: nothing, one operand, a tuple or a generator. -/
def parenthesized (p : Place) (cs : List Char) : Option (Operand × List Char) := do
  let q := p.bracketed
  let (before, start) ← q.token? true (cs.drop 1)
  match start with
  | ')' :: stop => some (⟨.tuple (before.map Expr.ofJoin), .display false⟩, stop)
  | _ =>
    let (first, rest) ← r.item q.comprehended start
    if startsClauses q rest && first.isExpression && !Word.opens "yield" start then
      let stop ← r.clauses q ')' rest
      some (.verbatim "generator_expression" cs stop, stop)
    else
      let (more, stop) ← r.moreItems q ')' rest
      if more.comma then
        some (⟨.tuple (before.map Expr.ofJoin ++ values first more), formOf (first :: more.items)⟩, stop)
      else
        let o := wrapped p cs first before more.joins stop
        if p.opening = .item && !o.isExpression && !endsItem q stop then .none else some (o, stop)

/-- What stands behind an opening square bracket at `cs`. -/
def bracketed (p : Place) (cs : List Char) : Option (Operand × List Char) := do
  let q := p.bracketed
  let (before, start) ← q.token? true (cs.drop 1)
  match start with
  | ']' :: stop => some (⟨.list (before.map Expr.ofJoin), .display false⟩, stop)
  | _ =>
    let (first, rest) ← r.item q.comprehended start
    if startsClauses q rest && first.isExpression && !Word.opens "yield" start then
      let stop ← r.clauses q ']' rest
      some (.verbatim "list_comprehension" cs stop, stop)
    else
      let (more, stop) ← r.moreItems q ']' rest
      some (⟨.list (before.map Expr.ofJoin ++ values first more), formOf (first :: more.items)⟩, stop)

/-! ## Braces -/

/-- The value of a pair, from behind its colon. -/
def pairValue (p : Place) (cs : List Char) : Option (List Char) := do
  let (_, rest) ← r.expression p Level.lowest (← p.within.operand? cs)
  some rest

/-- A pair of a dictionary, or a dictionary behind two stars. -/
def entry (p : Place) (cs : List Char) : Option (Unit × List Char) :=
  match cs with
  | '*' :: '*' :: rest => do
    let (_, rest) ← r.expression p Level.lowest (← p.within.operand? rest)
    some ((), rest)
  | _ => do
    let (_, rest) ← r.expression p.within Level.lowest cs
    let rest ← r.pairValue p (← p.within.after? ':' rest)
    some ((), rest)

/-- The entries that follow a first one, up to the closing brace. -/
def moreEntries (p : Place) (cs : List Char) : Option (List Char) :=
  let (_, rest) := p.items p (r.entry p) cs
  p.after? '\x7d' (p.optionalComma rest)

/-- What stands behind an opening brace at `cs`: a dictionary or a set. -/
def braced (p : Place) (cs : List Char) : Option (Operand × List Char) := do
  let q := p.bracketed
  let start ← q.operand? (cs.drop 1)
  match start with
  | '\x7d' :: stop => some (.verbatim "dictionary" cs stop, stop)
  | ',' :: rest =>
    let stop ← q.after? '\x7d' rest
    some (.verbatim "dictionary" cs stop, stop)
  | '*' :: '*' :: _ =>
    let ((), rest) ← r.entry q start
    let stop ← r.moreEntries q rest
    some (.verbatim "dictionary" cs stop, stop)
  | _ =>
    let (first, rest) ← r.item q.comprehended start
    let isExpression := first.isExpression && !Word.opens "yield" start
    match if isExpression then q.after? ':' rest else .none with
    | some behind =>
      let rest ← r.pairValue q.comprehended behind
      if startsClauses q rest then
        let stop ← r.clauses q '\x7d' rest
        some (.verbatim "dictionary_comprehension" cs stop, stop)
      else
        let stop ← r.moreEntries q rest
        some (.verbatim "dictionary" cs stop, stop)
    | .none =>
      if startsClauses q rest && isExpression then
        let stop ← r.clauses q '\x7d' rest
        some (.verbatim "set_comprehension" cs stop, stop)
      else
        let (_, stop) ← r.moreItems q '\x7d' rest
        some (.verbatim "set" cs stop, stop)

/-! ## Subscripts -/

/-- An expression, if one comes next. -/
def optionalExpression (p : Place) (cs : List Char) : List Char :=
  match (p.operand? cs).bind (r.expression p Level.lowest) with
  | some (_, rest) => rest
  | .none => cs

/-- An expression or a slice. -/
def index (p : Place) (cs : List Char) : Option (Expr × List Char) :=
  let slice (rest : List Char) : Expr × List Char :=
    let rest := r.optionalExpression p rest
    let stop := match p.after? ':' rest with
      | some rest => r.optionalExpression p rest
      | .none => rest
    (.verbatim "slice" (between cs stop), stop)
  match cs with
  | ':' :: rest => some (slice rest)
  | _ => do
    let (o, rest) ← r.expression p Level.lowest cs
    match p.after? ':' rest with
    | some rest => some (slice rest)
    | .none => some (o.expr, rest)

/-- One expression stands for itself and several for their tuple. -/
def sliceOf : List Expr → Expr
  | [e] => e
  | es => .tuple es

/-- The index of a subscript, from behind its opening bracket to behind its closing one. -/
def subscript (p : Place) (cs : List Char) : Option (Expr × List Char) := do
  let q := p.bracketed
  let (es, rest) ← q.list? (r.index q) (← p.within.operand? cs)
  let stop ← q.after? ']' (q.optionalComma rest)
  some (sliceOf es, stop)

/-! ## Calls -/

inductive Argument where
  | positional (value : Expr)
  | keyword (name : String) (value : Expr)
  /-- An argument behind stars, kept with its text. -/
  | splat (value : Expr)
  /-- A bare generator, which stands alone. -/
  | generator
deriving Repr, Inhabited

/-- Words that open an expression and are no names. -/
def isReserved (word : List Char) : Bool :=
  ["not", "lambda", "None", "True", "False"].any fun w => word == w.toList

/-- The name and the value of an argument given by name. -/
def keywordArgument (p : Place) (cs : List Char) : Option (Argument × List Char) := do
  let (w, rest) ← Word.read? cs
  if isReserved w then .none
  let rest ← p.after? '=' rest
  if rest.head? = some '=' then .none
  let (o, rest) ← r.expression p Level.lowest (← p.within.operand? rest)
  some (.keyword (String.ofList w) o.expr, rest)

/-- An argument by name or behind two stars. -/
def namedArgument (p : Place) (cs : List Char) : Option (Argument × List Char) :=
  match cs with
  | '*' :: '*' :: rest => do
    let (_, stop) ← r.expression p Level.lowest (← p.within.operand? rest)
    some (.splat (.verbatim "dictionary_splat" (between cs stop)), stop)
  | _ => r.keywordArgument p cs

/-- What an operand is among arguments. A spread in parentheses is an operand if it can be one, unless it
`spreads`. -/
def argumentOf (spreads : Bool) (o : Operand) : Argument :=
  match o.form with
  | .spread .. => .splat o.expr
  | .enclosed _ spread isOperand _ => .positional (if isOperand && !spreads then o.expr else spread)
  | _ => .positional o.expr

/-- An argument behind others. -/
def argument (p : Place) (cs : List Char) : Option (Argument × List Char) :=
  match r.namedArgument p cs with
  | some (a, rest) => some (a, rest)
  | .none =>
    if ['*', '*'].isPrefixOf cs then .none
    else (r.starItem p cs).map fun (o, rest) => (argumentOf false o, rest)

namespace Argument

def ofJoin (text : String) : Argument := .positional (.ofJoin text)

def positional? : Argument → Option Expr
  | .positional e => some e
  | _ => .none

def keyword? : Argument → Option (String × Expr)
  | .keyword n e => some (n, e)
  | _ => .none

/-- Whether a call with the argument keeps its text. -/
def isVerbatim : Argument → Bool
  | .splat _ | .generator => true
  | _ => false

end Argument

/-- The arguments behind a first one, up to the closing parenthesis. -/
def moreArguments (p : Place) (cs : List Char) : Option (List Argument × List Char) :=
  let (more, rest) := p.elements p (fun j => [Argument.ofJoin j]) (r.argument p) cs.length cs
  (p.close? ')' rest).map fun (joins, stop) => (more ++ joins.map Argument.ofJoin, stop)

/-- Arguments, from behind the opening parenthesis to behind the closing one. At the end of a line, a first
argument that is a spread in parentheses spreads. -/
def arguments (p : Place) (cs : List Char) : Option (List Argument × List Char) := do
  let q := p.bracketed
  let (before, start) ← q.token? true cs
  let joined (as : List Argument) : List Argument := before.map Argument.ofJoin ++ as
  match start with
  | ')' :: stop => some (joined [], stop)
  | ',' :: rest => (q.mark? ')' rest).map fun (joins, stop) => (joined (joins.map Argument.ofJoin), stop)
  | _ =>
    match r.namedArgument q start with
    | some (first, rest) =>
      let (more, stop) ← r.moreArguments q rest
      some (joined (first :: more), stop)
    | .none =>
      if ['*', '*'].isPrefixOf start then .none
      let (first, rest) ← r.starItem q.comprehended start
      if startsClauses q rest && first.isExpression then
        let stop ← r.clauses q ')' rest
        some ([.generator], stop)
      else
        let (more, stop) ← r.moreArguments q rest
        some (joined (argumentOf (p.endsLine stop) first :: more), stop)

/-- A call of an operand. It keeps its text where an argument stands behind stars or is a generator. -/
def call (p : Place) (start : List Char) (function : Expr) (cs : List Char) :
    Option (Operand × List Char) := do
  let (as, stop) ← r.arguments p cs
  if as.any Argument.isVerbatim then some (.verbatim "call" start stop, stop)
  else
    let e := .call function (as.filterMap Argument.positional?) (as.filterMap Argument.keyword?)
    some (⟨e, .plain⟩, stop)

end PluginTools.Rules
