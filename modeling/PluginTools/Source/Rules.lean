/-
What the rules of the grammar share. A rule that needs operands nested in its own takes the rules for the
nested ones as an argument, `Rules`, so that each rule is a plain definition and only the last step, which
ties them together, counts how deep they nest.
-/
import PluginTools.Source.Place
import PluginTools.Source.Definition
import PluginTools.Source.Numeral
import PluginTools.Source.Quotation

namespace PluginTools

/-- What an operand is apart from its value: whether it may be assigned to, and where it may stand. -/
inductive Form where
  /-- One identifier. -/
  | name
  /-- An attribute or a subscript. -/
  | access
  /-- A list, a tuple or parentheses of targets; `filled` says that there are some. -/
  | display (filled : Bool)
  /-- A star and a name or an access. -/
  | splat
  /-- A star and an expression, which only stands among items; `alone` is its value as an operand, where
  the star belongs to the shortest name or access behind it. -/
  | spread (alone : Option Expr) (assignable : Bool)
  /-- A spread in parentheses of its own: their text, the spread, whether it may be an operand, and
  whether it may be assigned to. -/
  | enclosed (text : String) (spread : Expr) (isOperand assignable : Bool)
  /-- A join among items. -/
  | join
  /-- Anything else. -/
  | plain
deriving Repr, Inhabited

structure Operand where
  expr : Expr
  form : Form
deriving Repr, Inhabited

/-- A join as an element of what it stands in. -/
def Expr.ofJoin (text : String) : Expr := .verbatim "line_continuation" text

namespace Operand

/-- Whether the operand may be assigned to. A join among targets counts for nothing. -/
def isTarget (o : Operand) : Bool :=
  match o.form with
  | .name | .access | .display _ | .splat | .join => true
  | .spread _ assignable | .enclosed _ _ _ assignable => assignable
  | .plain => false

/-- Whether the operand is a single name. -/
def isName (o : Operand) : Bool :=
  match o.form with
  | .name => true
  | _ => false

/-- Whether the operand is an attribute or a subscript. -/
def isMember (o : Operand) : Bool :=
  match o.form with
  | .access => true
  | _ => false

/-- Whether the operand is a name, an attribute or a subscript. -/
def isAccess (o : Operand) : Bool := o.isName || o.isMember

/-- Whether the operand is in brackets that hold targets. -/
def isFilled (o : Operand) : Bool :=
  match o.form with
  | .display filled => filled
  | .enclosed _ _ _ assignable => assignable
  | _ => false

/-- Whether the operand is an expression of its own, which an operator or a clause may follow. -/
def isExpression (o : Operand) : Bool :=
  match o.form with
  | .spread alone _ => alone.isSome
  | .enclosed _ _ isOperand _ => isOperand
  | .join => false
  | _ => true

/-- An operand that keeps only its text. -/
def verbatim (kind : String) (start stop : List Char) : Operand := ⟨.verbatim kind (between start stop), .plain⟩

def ofJoin (text : String) : Operand := ⟨.ofJoin text, .join⟩

end Operand

/-! ## Statements -/

/-- What is kept of a statement. -/
inductive Item where
  /-- Expressions with commas between them. -/
  | expressions (values : List Expr)
  /-- One name with a type. -/
  | typed (name : String) (type : Expr)
  | result (value : Option Expr)
  | ofFunction (function : Function)
  | ofClass (definition : Class)
  | other
deriving Repr, Inhabited

/-- A statement with its own text. -/
structure Piece where
  item : Item
  text : String
deriving Repr, Inhabited

/-! ## Rules -/

/-- The rules for what is nested in a construct. -/
structure Rules where
  /-- An expression whose operators bind tighter than a level. -/
  expression : Place → Int → List Char → Option (Operand × List Char)
  /-- An operand whose arithmetic binds tighter than a level. -/
  primary : Place → Int → List Char → Option (Operand × List Char)
  /-- An operand with its attributes, subscripts and calls. -/
  chain : Place → List Char → Option (Operand × List Char)
  /-- An interpolation, from behind its opening brace to behind its closing one. -/
  interpolation : Place → List Char → Option (List Char)
  /-- A type. -/
  type : Place → List Char → Option (Expr × List Char)
  /-- The right side of an assignment. -/
  assigned : Place → List Char → Option (List Char)
  /-- A pattern of a case. -/
  pattern : Place → List Char → Option (List Char)
  /-- A pattern without names and keywords of its own. -/
  simplePattern : Place → List Char → Option (List Char)
  /-- The statements behind a colon, in a block at a column. -/
  suite : Nat → List Char → Option (List Piece × List Char)

namespace Rules

/-- No rules: nothing nested is read. -/
def none : Rules where
  expression _ _ _ := .none
  primary _ _ _ := .none
  chain _ _ := .none
  interpolation _ _ := .none
  type _ _ := .none
  assigned _ _ := .none
  pattern _ _ := .none
  simplePattern _ _ := .none
  suite _ _ := .none

end Rules

/-! ## Levels of binding -/

namespace Level

/-- Below every operator. -/
def lowest : Int := -3
def conditional : Int := -1
def naming : Int := 0
def disjunction : Int := 10
def conjunction : Int := 11
def negation : Int := 12
def comparison : Int := 13
def unary : Int := 20
def power : Int := 21

end Level

/-! ## Lists -/

namespace Rules

/-- Expressions with commas between them, perhaps one at the end; whether there is a comma, and whether
a join stands before the last one. -/
structure Listed where
  operands : List Operand
  comma : Bool
  joined : Bool
deriving Repr, Inhabited

/-- Expressions with commas between them, perhaps one at the end; behind a comma `ends` tells what is none. -/
def expressionsUntil (r : Rules) (p : Place) (ends : List Char → Bool) (cs : List Char) :
    Option (Listed × List Char) := do
  let (first, rest) ← r.expression p Level.lowest cs
  let item (cs : List Char) := if ends cs then .none else r.expression p.later Level.lowest cs
  let (more, rest) := p.items p.later item rest
  match p.mark? ',' rest with
  | some (joins, stop) => some (⟨first :: more, true, !joins.isEmpty⟩, stop)
  | .none => some (⟨first :: more, !more.isEmpty, false⟩, rest)

/-- Expressions with commas between them, perhaps one at the end. -/
def expressions (r : Rules) (p : Place) (cs : List Char) : Option (Listed × List Char) :=
  r.expressionsUntil p (fun _ => false) cs

/-- The expressions behind a word that gives them to someone: behind a comma, `from` is none of them. -/
def given (r : Rules) (p : Place) (cs : List Char) : Option (Listed × List Char) :=
  r.expressionsUntil p (Word.opens "from") cs

/-- A `yield` with what it gives, from the word on. -/
def yielded? (r : Rules) (p : Place) (cs : List Char) : Option (Operand × List Char) := do
  let rest ← Word.after? "yield" cs
  let stop :=
    match p.operand? rest with
    | some start =>
      match Word.after? "from" start with
      | some rest =>
        match (p.within.operand? rest).bind (r.expression p.later Level.lowest) with
        | some (_, rest) => rest
        | .none => start
      | .none =>
        match r.given p.later start with
        | some (_, rest) => rest
        | .none => rest
    | .none => rest
  some (.verbatim "yield" cs stop, stop)

/-- A name, an attribute, a subscript or a display of such. -/
def target (r : Rules) (p : Place) (cs : List Char) : Option (Operand × List Char) :=
  (r.chain p cs).filter fun (o, _) => o.isTarget

/-- The targets of a loop; behind a comma `in` ends them. -/
def targets (r : Rules) (p : Place) (cs : List Char) : Option (List Char) := do
  let (_, rest) ← r.target p cs
  let more (cs : List Char) := if Word.opens "in" cs then .none else r.target p cs
  let (_, rest) := p.items p more rest
  some (p.optionalComma rest)

end Rules
end PluginTools
