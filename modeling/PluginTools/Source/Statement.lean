/-
Statements. Simple ones stand on one line, perhaps several with semicolons between them; compound ones
have a suite of statements behind a colon, on the same line or as a deeper block.
-/
import PluginTools.Source.Pattern

namespace PluginTools.Rules

variable (r : Rules)

/-! ## Ends and begins -/

/-- Whether a simple statement may end here. -/
def closes (p : Place) (cs : List Char) : Bool :=
  match (p.ending.gap false cs).mark with
  | .newline _ => true
  | .token (';' :: _) => true
  | _ => false

/-- The next statement of the block at a column, if the block goes on. -/
def nextStatement (column : Nat) (cs : List Char) : Option (List Char) :=
  match (Layout.read ⟨false, true, false, false, true, true⟩ column false cs).mark with
  | .token start => some start
  | _ => .none

/-- The words that go on with an operand, which a soft keyword before them would be. -/
def isOperatorWord (cs : List Char) : Bool :=
  ["if", "and", "or", "in", "is", "as"].any fun w => Word.opens w cs

/-! ## Assignments -/

/-- The text behind an operator that assigns, other than a plain equals sign. -/
def augmented? (cs : List Char) : Option (List Char) :=
  let operators := ["**=", "//=", ">>=", "<<=", "+=", "-=", "*=", "/=", "@=", "%=", "&=", "^=", "|="]
  operators.findSome? fun o => if o.toList.isPrefixOf cs then some (cs.drop o.length) else .none

/-- The right side of an assignment, behind its operator. -/
def rightSide (p : Place) (cs : List Char) : Option (List Char) := do
  r.assigned p (← p.within.operand? cs)

/-- What an operator or a type behind targets makes of them. -/
def assignment (p : Place) (os : List Operand) (comma : Bool) (cs : List Char) : Option (Item × List Char) := do
  if !os.all Operand.isTarget then .none
  let start ← p.next? cs
  match augmented? start with
  | some behind => (r.rightSide p behind).map (.other, ·)
  | .none =>
    match start with
    | '=' :: behind => if behind.head? = some '=' then .none else (r.rightSide p behind).map (.other, ·)
    | ':' :: behind => do
      let (type, stop) ← r.type p (← p.within.operand? behind)
      let stop := match p.after? '=' stop with
        | some behind => (r.rightSide p behind).getD stop
        | .none => stop
      match os, comma with
      | [⟨.name id, .name⟩], false => some (.typed id type, stop)
      | _, _ => some (.other, stop)
    | _ => .none

/-- Several targets, or one in brackets, and what is assigned to them. A line may end behind the brackets
and, at the begin of a statement, between the targets and before the operator. -/
def unfolded (p : Place) (isRight : Bool) (cs : List Char) : Option (Item × List Char) := do
  let isWord (words : List String) (cs : List Char) : Bool := words.any fun w => Word.opens w cs
  if isWord ["not", "lambda"] cs then .none
  let (first, stop) ← r.target p cs
  if !first.isFilled && !p.hasComma stop then .none
  let q := if p.hasComma stop && isRight then p.later else p.within
  let (more, stop) := q.items q (fun cs => if isWord ["in"] cs then .none else r.target q cs) stop
  let start ← q.next? (q.optionalComma stop)
  let (item, stop) ← r.assignment p (first :: more) (!more.isEmpty || q.hasComma stop) start
  if closes p stop then some (item, stop) else .none

/-- Expressions, perhaps with what is assigned to them, or a `yield`. `isRight` says that they are themselves
the right side of an assignment. -/
def expressionStatement (p : Place) (isRight : Bool) (cs : List Char) : Option (Item × List Char) :=
  let p := { p with opening := .statement }
  match r.yielded? p cs with
  | some (o, stop) => some (.expressions [o.expr], stop)
  | .none =>
    match r.unfolded p isRight cs with
    | some s => some s
    | .none => do
      let (es, stop) ← r.expressions p cs
      let item : Item := if es.joined then .other else .expressions (es.operands.map Operand.expr)
      let assigned := if es.comma then .none else r.assignment p es.operands false stop
      some (assigned.getD (item, stop))

/-- Targets with commas between them, among which any word is a name. -/
def targetList (p : Place) (cs : List Char) : Option (List Char) :=
  (p.list? (r.target p) cs).map fun (_, stop) => p.optionalComma stop

/-- The right side of an assignment: a statement of its own, or a list of what might be assigned to. -/
def assignedRule (p : Place) (cs : List Char) : Option (List Char) :=
  match (r.expressionStatement p true cs).map Prod.snd with
  | some stop => if closes p stop then some stop else (r.targetList p.later cs).or (some stop)
  | .none => .none

/-! ## Simple statements -/

/-- A `return`, from behind its word. A join before the value stands in for it. -/
def returned (p : Place) (behind : List Char) : Item × List Char :=
  match p.token? true behind with
  | some (joins, start) =>
    match r.given p start with
    | some (es, stop) =>
      let value : Expr := match joins, es.operands, es.comma with
        | j :: _, _, _ => .ofJoin j
        | [], [o], false => o.expr
        | [], _, _ => .verbatim "expression_list" (between start stop)
      (.result (some value), stop)
    | .none => (.result .none, behind)
  | .none => (.result .none, behind)

/-- A `raise`, from behind its word: perhaps expressions, and perhaps a cause behind `from`. -/
def raised (p : Place) (behind : List Char) : Option (List Char) := do
  let values := (p.operand? behind).bind fun cs => if Word.opens "from" cs then .none else r.given p cs
  let stop := (values.map Prod.snd).getD behind
  match p.word? "from" stop with
  | some behind =>
    let (_, stop) ← r.expression p Level.lowest (← p.within.operand? behind)
    some stop
  | .none => some stop

/-- Expressions with commas between them and none at the end. -/
def plainExpressions (p : Place) (behind : List Char) : Option (List Char) := do
  let item := r.expression p Level.lowest
  let (_, stop) ← item (← p.within.operand? behind)
  some (p.items p.within item stop).2

/-- Names with commas between them. -/
def names (p : Place) (behind : List Char) : Option (List Char) := do
  let item (cs : List Char) := (Word.read? cs).map fun (_, stop) => ((), stop)
  let (_, stop) ← item (← p.within.next? behind)
  some (p.items p.within item stop).2

/-- What is imported: a name with dots and perhaps a name to use instead. -/
def imported (p : Place) (cs : List Char) : Option (Unit × List Char) := do
  let stop ← dottedName p cs
  match p.word? "as" stop with
  | some behind => (p.within.name? behind).map fun (_, stop) => ((), stop)
  | .none => some ((), stop)

def imports (p : Place) (behind : List Char) : Option (List Char) := do
  let (_, stop) ← p.list? (imported p) (← p.within.next? behind)
  some (p.optionalComma stop)

/-- What is imported from a module: all, or names, perhaps in parentheses. -/
def importsFrom (p : Place) (all : Bool) (behind : List Char) : Option (List Char) := do
  match ← p.within.next? behind with
  | '*' :: stop => if all then some stop else .none
  | '(' :: behind =>
    let q := p.bracketed
    q.after? ')' (← imports q behind)
  | _ => imports p behind

/-- The dots before a module's name. -/
def leadingDots (p : Place) : Nat → List Char → List Char
  | 0, cs => cs
  | fuel + 1, cs =>
    match p.after? '.' cs with
    | some cs => leadingDots p fuel cs
    | .none => cs

def fromModule (p : Place) (behind : List Char) : Option (List Char) := do
  let q := p.within
  let start ← q.next? behind
  match Word.after? "__future__" start with
  | some behind => importsFrom p false (← q.word? "import" behind)
  | .none =>
    let behind ← if start.head? = some '.' then
        let dots := leadingDots q start.length start
        if (q.word? "import" dots).isSome then some dots else dottedName q (← q.next? dots)
      else dottedName q start
    importsFrom p true (← q.word? "import" behind)

/-- A statement that assigns or only computes, where it ends as a statement has to. -/
def closedExpression (p : Place) (cs : List Char) : Option (Item × List Char) :=
  (r.expressionStatement p false cs).filter fun (_, stop) => closes p stop

/-- The arguments of a `print` without parentheses, behind the word. -/
def printed (p : Place) (behind : List Char) : Option (List Char) := do
  let start ← p.operand? behind
  match start with
  | '>' :: '>' :: behind =>
    if behind.head? = some '=' then .none
    let item := r.expression p Level.lowest
    let (_, stop) ← item (← p.within.operand? behind)
    some (p.optionalComma (p.items p item stop).2)
  | _ =>
    if isOperatorWord start then .none
    (r.expressions p start).map Prod.snd

/-- Whether a `print` writes to a file. -/
def hasChevron (p : Place) (behind : List Char) : Bool :=
  match p.operand? behind with
  | some ('>' :: '>' :: c :: _) => c != '='
  | some ['>', '>'] => true
  | _ => false

def printStatement (p : Place) (cs behind : List Char) : Option (Item × List Char) :=
  match if hasChevron p behind then .none else r.closedExpression p cs with
  | some s => some s
  | .none => (r.printed p behind).map (.other, ·)

/-- Code to execute and where, behind the word. -/
def executed (p : Place) (behind : List Char) : Option (List Char) := do
  let start ← p.operand? behind
  if isOperatorWord start || Word.opens "not" start then .none
  let stop ←
    if Layout.startsString start then (r.stringPart p start).map Prod.snd
    else (Word.read? start).map Prod.snd
  match p.word? "in" stop with
  | some behind => r.plainExpressions p behind
  | .none => some stop

def execStatement (p : Place) (cs behind : List Char) : Option (Item × List Char) :=
  match r.executed p behind with
  | some stop => some (.other, stop)
  | .none => r.expressionStatement p false cs

/-- A name for a type, behind the word. -/
def aliased (p : Place) (behind : List Char) : Option (List Char) := do
  let start ← p.operand? behind
  if isOperatorWord start then .none
  let (_, stop) ← r.type p.within start
  let behind ← p.within.after? '=' stop
  let (_, stop) ← r.type p (← p.within.operand? behind)
  some stop

def typeStatement (p : Place) (cs behind : List Char) : Option (Item × List Char) :=
  match (r.aliased p behind).filter (closes p) with
  | some stop => some (.other, stop)
  | .none => r.expressionStatement p false cs

/-- A statement that is no compound one. -/
def simpleStatement (p : Place) (cs : List Char) : Option (Item × List Char) :=
  let other (stop : Option (List Char)) : Option (Item × List Char) := stop.map (.other, ·)
  match Word.read? cs with
  | .none => r.expressionStatement p false cs
  | some (w, behind) =>
    let word := String.ofList w
    if word = "return" then some (r.returned p behind)
    else if word = "pass" ∨ word = "break" ∨ word = "continue" then some (.other, behind)
    else if word = "import" then other (imports p behind)
    else if word = "from" then other (fromModule p behind)
    else if word = "raise" then other (r.raised p behind)
    else if word = "assert" then other (r.plainExpressions p behind)
    else if word = "del" then other ((p.within.operand? behind).bind fun cs => (r.given p cs).map Prod.snd)
    else if word = "global" ∨ word = "nonlocal" then other (names p behind)
    else if word = "print" then r.printStatement p cs behind
    else if word = "exec" then r.execStatement p cs behind
    else if word = "type" then r.typeStatement p cs behind
    else r.expressionStatement p false cs

/-- A join among statements. -/
def joinPiece (text : String) : Piece := ⟨.other, text⟩

/-- The simple statements of a line, and what follows the line's end. -/
def lineFrom (column : Nat) : Nat → List Char → Option (List Piece × List Char)
  | 0, _ => .none
  | fuel + 1, cs => do
    let p := Place.lineAt column
    let (item, stop) ← r.simpleStatement p cs
    let piece : Piece := ⟨item, between cs stop⟩
    match p.gap false stop with
    | ⟨joins, .newline rest⟩ => some (piece :: joins.map joinPiece, rest)
    | ⟨joins, .token (';' :: behind)⟩ =>
      let pieces := piece :: joins.map joinPiece
      match p.gap true behind with
      | ⟨joins, .newline rest⟩ => some (pieces ++ joins.map joinPiece, rest)
      | ⟨joins, .token start⟩ =>
        let (more, rest) ← lineFrom column fuel start
        some (pieces ++ joins.map joinPiece ++ more, rest)
      | _ => .none
    | _ => .none

/-! ## Compound statements -/

/-- The suite behind a header's colon. -/
def body (column : Nat) (cs : List Char) : Option (List Piece × List Char) := do
  r.suite column (← (Place.lineAt column).within.after? ':' cs)

/-- An expression and a suite. -/
def conditionBody (column : Nat) (behind : List Char) : Option (List Char) := do
  let p := (Place.lineAt column).within
  let (_, stop) ← r.expression p Level.lowest (← p.operand? behind)
  (r.body column stop).map Prod.snd

/-- A clause that starts with a word, if it comes next. -/
def optionalClause (column : Nat) (word : String) (cs : List Char) : Option (List Char) :=
  match (nextStatement column cs).bind (Word.after? word) with
  | some behind => (r.body column behind).map Prod.snd
  | .none => some cs

/-- Clauses with a condition, as long as they come next. -/
def elifClauses (column : Nat) : Nat → List Char → Option (List Char)
  | 0, cs => some cs
  | fuel + 1, cs =>
    match (nextStatement column cs).bind (Word.after? "elif") with
    | some behind => (r.conditionBody column behind).bind (elifClauses column fuel)
    | .none => some cs

def ifStatement (column : Nat) (behind : List Char) : Option (List Char) := do
  let stop ← r.conditionBody column behind
  let stop ← r.elifClauses column stop.length stop
  r.optionalClause column "else" stop

def whileStatement (column : Nat) (behind : List Char) : Option (List Char) := do
  r.optionalClause column "else" (← r.conditionBody column behind)

def forStatement (column : Nat) (behind : List Char) : Option (List Char) := do
  let p := (Place.lineAt column).within
  let stop ← r.targets p (← p.operand? behind)
  let behind ← p.word? "in" stop
  let (_, stop) ← r.expressions p (← p.operand? behind)
  let (_, stop) ← r.body column stop
  r.optionalClause column "else" stop

def withStatement (column : Nat) (behind : List Char) : Option (List Char) := do
  let p := (Place.lineAt column).within
  let (_, stop) ← r.expressions p (← p.operand? behind)
  (r.body column stop).map Prod.snd

/-! ### Exceptions -/

/-- The text behind the word of a clause for exceptions, and whether it is for groups of them. -/
def except? (cs : List Char) : Option (Bool × List Char) :=
  (Word.after? "except" cs).map fun behind =>
    match behind with
    | '*' :: behind => (true, behind)
    | _ => (false, behind)

/-- A clause for exceptions: a value and a name for it are optional. -/
def exceptClause (column : Nat) (behind : List Char) : Option (List Char) := do
  let p := (Place.lineAt column).within
  let stop ← match (p.operand? behind).bind (r.expression p Level.lowest) with
    | some (_, stop) =>
      match (p.after? ',' stop).or (p.word? "as" stop) with
      | some behind => ((p.operand? behind).bind (r.expression p Level.lowest)).map Prod.snd
      | .none => some stop
    | .none => some behind
  (r.body column stop).map Prod.snd

/-- A clause for groups of exceptions, which names a value. -/
def groupClause (column : Nat) (behind : List Char) : Option (List Char) := do
  let p := (Place.lineAt column).within
  let (_, stop) ← r.expression p Level.lowest (← p.operand? behind)
  (r.body column stop).map Prod.snd

/-- More clauses of the same sort, as long as they come next. -/
def exceptClauses (column : Nat) (group : Bool) : Nat → List Char → Option (List Char)
  | 0, cs => some cs
  | fuel + 1, cs =>
    match (nextStatement column cs).bind (Word.after? "except") with
    | some behind =>
      if group then
        match behind with
        | '*' :: behind => (r.groupClause column behind).bind (exceptClauses column group fuel)
        | _ => some cs
      else (r.exceptClause column behind).bind (exceptClauses column group fuel)
    | .none => some cs

def tryStatement (column : Nat) (behind : List Char) : Option (List Char) := do
  let (_, stop) ← r.body column behind
  match (Layout.read ⟨false, false, false, false, false, true⟩ column false stop).mark with
  | .token start =>
    match except? start with
    | some (group, behind) =>
      let stop ← if group then r.groupClause column behind else r.exceptClause column behind
      let stop ← r.exceptClauses column group stop.length stop
      let stop ← r.optionalClause column "else" stop
      r.optionalClause column "finally" stop
    | .none => (Word.after? "finally" start).bind fun behind => (r.body column behind).map Prod.snd
  | _ => .none

/-! ### Matches -/

/-- One case, behind its word. -/
def caseClause (column : Nat) (behind : List Char) : Option (List Char) := do
  let p := (Place.lineAt column).within
  let item (cs : List Char) := (r.pattern p cs).map ((), ·)
  let (_, stop) ← p.list? item (← p.operand? behind)
  let stop := p.optionalComma stop
  let stop ← match p.word? "if" stop with
    | some behind => ((p.operand? behind).bind (r.expression p Level.lowest)).map Prod.snd
    | .none => some stop
  (r.body column stop).map Prod.snd

/-- The cases of a block, up to its end. -/
def casesFrom (column : Nat) : Nat → List Char → Option (List Char)
  | 0, _ => .none
  | fuel + 1, cs =>
    match (Layout.read ⟨false, true, false, false, false, false⟩ column false cs).mark with
    | .token start =>
      (Word.after? "case" start).bind fun behind =>
        (r.caseClause column behind).bind (casesFrom column fuel)
    | .dedent rest => some rest
    | _ => .none

/-- A match, from its word on: subjects and a block of cases. Where no deeper block follows, it is a match
without cases, unless its subjects are a target and a type for it follows on the next line. -/
def matchStatement (column : Nat) (cs behind : List Char) : Option (Item × List Char) := do
  let p := Place.lineAt column
  let start ← p.operand? behind
  if isOperatorWord start then .none
  let (_, stop) ← r.expressions p.within start
  let behind ← p.within.after? ':' stop
  match (Layout.read ⟨true, false, true, false, false, false⟩ column false behind).mark with
  | .indent inner rest => (r.casesFrom inner (rest.length + 1) rest).map (.other, ·)
  | .newline rest =>
    let typed := (r.closedExpression p cs).filter fun (_, stop) => stop.length < behind.length
    some (typed.getD (.other, rest))
  | _ => .none

/-! ### Definitions -/

/-- A statement of a function's body. -/
def statementOf (piece : Piece) : Statement :=
  match piece.item with
  | .expressions [e] => .expression e
  | .result value => .result value
  | _ => .other piece.text

/-- Types in brackets behind a definition's name. -/
def skipTypeParameters (p : Place) (cs : List Char) : Option (List Char) :=
  match p.after? '[' cs with
  | some behind => (r.typeParameters p behind).map Prod.snd
  | .none => some cs

/-- The type behind an arrow. -/
def returnType (p : Place) (cs : List Char) : Option (Option Expr × List Char) := do
  match p.next? cs with
  | some ('-' :: '>' :: behind) =>
    let (t, stop) ← r.unconstrained p (← p.operand? behind)
    some (some t, stop)
  | _ => some (.none, cs)

/-- Whether the line behind a return type would go on with the type: a name with a bracket behind it does,
and so do two stars, and a star and a name with an operator of types behind them. -/
def extendsType (column : Nat) (cs : List Char) : Bool :=
  match (Layout.read ⟨true, false, true, false, true, false⟩ column false cs).mark with
  | .token start =>
    let p := Place.lineAt column
    let isJoined (stop : List Char) : Bool := (p.next? stop).any fun cs => cs.head?.any ".|:".toList.contains
    startsGeneric p start || ['*', '*'].isPrefixOf start || (splatType p start).any fun (_, stop) => isJoined stop
  | _ => false

/-- A function, from behind the word that opens it. -/
def functionDefinition (column : Nat) (decorators : List Expr) (behind : List Char) :
    Option (Function × List Char) := do
  let p := (Place.lineAt column).within
  let (name, stop) ← p.name? behind
  let stop ← r.skipTypeParameters p stop
  let (parameters, stop) ← r.parameters p (← p.after? '(' stop)
  let (returns, stop) ← r.returnType p stop
  let behind ← p.after? ':' stop
  if returns.isSome && extendsType column behind then .none
  let (pieces, stop) ← r.suite column behind
  some (⟨name, decorators, parameters, returns, pieces.map statementOf, 0⟩, stop)

/-- The bases of a class; arguments given by name are none. -/
def baseOf : Argument → Option Expr
  | .positional e | .splat e => some e
  | _ => .none

def fieldOf (piece : Piece) : Option (String × Expr) :=
  match piece.item with
  | .typed name type => some (name, type)
  | _ => .none

/-- A class, from behind the word that opens it; `start` is where its text begins. -/
def classDefinition (column : Nat) (start behind : List Char) : Option (Class × List Char) := do
  let p := (Place.lineAt column).within
  let (name, stop) ← p.name? behind
  let stop ← r.skipTypeParameters p stop
  let (bases, stop) ← match p.after? '(' stop with
    | some behind => r.arguments p behind
    | .none => some ([], stop)
  if bases.any fun | .generator => true | _ => false then .none
  let (pieces, stop) ← r.body column stop
  some (⟨name, bases.filterMap baseOf, pieces.filterMap fieldOf, between start stop, 0⟩, stop)

/-- A function or a class, at its first word; `start` is where its text begins. -/
def definition (column : Nat) (decorators : List Expr) (start cs : List Char) : Option (Item × List Char) :=
  match Word.after? "class" cs with
  | some behind => (r.classDefinition column start behind).map fun (c, stop) => (.ofClass c, stop)
  | .none => do
    let cs := ((Word.after? "async" cs).bind (Place.lineAt column).within.next?).getD cs
    let behind ← Word.after? "def" cs
    (r.functionDefinition column decorators behind).map fun (f, stop) => (.ofFunction f, stop)

/-- Decorators and the definition behind them, at the first decorator. A join behind the mark stands in
for the decorator. -/
def decorated (column : Nat) (start : List Char) : Nat → List Expr → List Char → Option (Item × List Char)
  | 0, _, _ => .none
  | fuel + 1, decorators, cs =>
    match cs with
    | '@' :: behind => do
      let p := Place.lineAt column
      let (joins, first) ← p.within.token? true behind
      let (o, stop) ← r.expression p Level.lowest first
      let decorator := (joins.head?.map Expr.ofJoin).getD o.expr
      let rest ← p.ended? stop
      decorated column start fuel (decorators ++ [decorator]) (← p.within.next? rest)
    | _ => r.definition column decorators start cs

/-! ## Blocks -/

/-- A compound statement, if one starts here. -/
def compound? (column : Nat) (cs : List Char) : Option (Option (Item × List Char)) :=
  let other (stop : Option (List Char)) : Option (Option (Item × List Char)) := some (stop.map (.other, ·))
  if cs.head? = some '@' then some (r.decorated column cs cs.length [] cs)
  else
    match Word.read? cs with
    | .none => .none
    | some (w, behind) =>
      let word := String.ofList w
      if word = "def" ∨ word = "class" then some (r.definition column [] cs cs)
      else if word = "if" then other (r.ifStatement column behind)
      else if word = "for" then other (r.forStatement column behind)
      else if word = "while" then other (r.whileStatement column behind)
      else if word = "try" then other (r.tryStatement column behind)
      else if word = "with" then other (r.withStatement column behind)
      else if word = "match" then (r.matchStatement column cs behind).map some
      else if word = "async" then
        match (Place.lineAt column).next? behind with
        | some next =>
          match Word.read? next with
          | some (w, behind) =>
            let word := String.ofList w
            if word = "def" then some (r.definition column [] cs cs)
            else if word = "for" then other (r.forStatement column behind)
            else if word = "with" then other (r.withStatement column behind)
            else .none
          | .none => .none
        | .none => .none
      else .none

/-- One compound statement or the simple statements of one line. -/
def statement (column : Nat) (cs : List Char) : Option (List Piece × List Char) :=
  match r.compound? column cs with
  | some s => s.map fun (item, stop) => ([⟨item, between cs stop⟩], stop)
  | .none => r.lineFrom column (cs.length + 1) cs

/-- The statements of a block at a column, up to its end, with the joins between them. -/
def blockFrom (column : Nat) : Nat → List Char → Option (List Piece × List Char)
  | 0, _ => .none
  | fuel + 1, cs =>
    match Layout.read ⟨false, true, false, false, true, false⟩ column false cs with
    | ⟨joins, .token start⟩ => do
      let (first, rest) ← r.statement column start
      let (more, rest) ← blockFrom column fuel rest
      some (joins.map joinPiece ++ first ++ more, rest)
    | ⟨joins, .dedent rest⟩ => some (joins.map joinPiece, rest)
    | _ => .none

/-- The statements behind a colon: on the same line, as a deeper block, or none. A join before the first
one is none of them. -/
def suiteRule (column : Nat) (cs : List Char) : Option (List Piece × List Char) :=
  match (Layout.read ⟨true, false, true, false, true, false⟩ column false cs).mark with
  | .token start => r.lineFrom column (start.length + 1) start
  | .indent inner rest => do
    let start ← nextStatement inner rest
    r.blockFrom inner (rest.length + 1) start
  | .newline rest => some ([], rest)
  | _ => .none

end PluginTools.Rules
