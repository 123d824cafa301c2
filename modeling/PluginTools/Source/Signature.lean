/-
Parameters of functions and of `lambda`, and types with their parameters. A type is an expression or one
of a few forms of its own, in which a name with brackets takes types and a bar joins two types.
-/
import PluginTools.Source.Rules

namespace PluginTools.Rules

variable (r : Rules)

/-! ## Parameters -/

/-- The target behind one star or two. -/
def starTarget (p : Place) (cs : List Char) : Option (List Char) := do
  let (o, stop) ← r.chain p (← p.operand? cs)
  if o.isAccess then some stop else .none

/-- A parameter that starts with a mark: a separator, one star or two, or a tuple. It has no name. -/
def markedParameter (p : Place) (cs : List Char) : Option (List Char) :=
  match cs with
  | '*' :: '*' :: behind => r.starTarget p.within behind
  | '*' :: behind => some ((r.starTarget p behind).getD behind)
  | '/' :: behind => some behind
  | '(' :: _ => (r.target p cs).map Prod.snd
  | _ => .none

/-- The value behind an equals sign. -/
def defaultValue (p : Place) (cs : List Char) : Option (Expr × List Char) := do
  let behind ← p.after? '=' cs
  let (o, stop) ← r.expression p Level.lowest (← p.within.operand? behind)
  some (o.expr, stop)

/-- A parameter of a `lambda`. -/
def lambdaParameter (p : Place) (cs : List Char) : Option (Unit × List Char) := do
  let stop ← match r.markedParameter p cs with
    | some stop => some stop
    | .none => (Word.read? cs).map Prod.snd
  let isStarred := cs.head? = some '*' ∨ cs.head? = some '/'
  match if isStarred then .none else r.defaultValue p stop with
  | some (_, stop) => some ((), stop)
  | .none => some ((), stop)

/-- A `lambda` whose body is read by the given rule, from its word on. -/
def lambda? (p : Place) (body : List Char → Option (Operand × List Char)) (cs : List Char) :
    Option (Operand × List Char) := do
  let behind ← Word.after? "lambda" cs
  let q := p.within
  let start ← q.operand? behind
  let behind ← match start with
    | ':' :: behind => some behind
    | _ => do
      let (_, behind) ← q.list? (r.lambdaParameter q) start
      q.after? ':' (q.optionalComma behind)
  let (_, stop) ← body (← q.operand? behind)
  some (.verbatim "lambda" cs stop, stop)

/-! ## Types -/

/-- Words that are no names where a type with brackets starts. -/
def isTypeReserved (word : List Char) : Bool :=
  ["not", "lambda", "None", "True", "False", "await", "print", "exec", "async", "match"].any fun w =>
    word == w.toList

/-- Words that make no type of the star before them: constants, and those that may also be names. -/
def isStarReserved (word : List Char) : Bool :=
  ["None", "True", "False", "await", "print", "exec", "async", "match", "type"].any fun w => word == w.toList

/-- Types in brackets, from behind the opening one to behind the closing one. -/
def typeParameters (p : Place) (cs : List Char) : Option (List Expr × List Char) := do
  let q := p.bracketed
  let join (text : String) : List Expr := [.ofJoin text]
  let (before, start) ← p.within.token? true cs
  let (first, rest) ← r.type q start
  let (more, rest) := q.elements q join (r.type q) rest.length rest
  let (behind, stop) ← q.close? ']' rest
  some (before.flatMap join ++ first :: (more ++ behind.flatMap join), stop)

/-- One type stands for itself and several for their tuple. -/
def parametersOf : List Expr → Expr
  | [e] => e
  | es => .tuple es

/-- Whether an operator of an expression comes next, other than those that also join types. -/
def continuesExpression (p : Place) (cs : List Char) : Bool :=
  match p.next? cs with
  | some (c :: rest) =>
    "[(+-*/%@&^<>!".toList.contains c || (c == '=' && rest.head? == some '=') ||
      ["if", "and", "or", "in", "is", "not", "as"].any fun w => Word.opens w (c :: rest)
  | _ => false

/-- A star or two and a name, in the place of a type. Behind two stars any word is a name. Behind one, the
star belongs to an expression where an operator of expressions follows the name. -/
def splatType (p : Place) (cs : List Char) : Option (Expr × List Char) :=
  match cs with
  | '*' :: '*' :: behind => do
    let (_, stop) ← p.within.name? behind
    some (.verbatim "splat_type" (between cs stop), stop)
  | '*' :: behind => do
    let (w, stop) ← Word.read? (← p.within.operand? behind)
    if isStarReserved w || continuesExpression p stop then .none
    some (.verbatim "splat_type" (between cs stop), stop)
  | _ => .none

/-- A name with types in brackets. -/
def genericType (p : Place) (cs : List Char) : Option (Expr × List Char) := do
  let (w, behind) ← Word.read? cs
  if isTypeReserved w then .none
  let behind ← p.after? '[' behind
  let (ts, stop) ← r.typeParameters p behind
  some (.subscript (.name (String.ofList w)) (parametersOf ts), stop)

/-- Whether a name with a bracket behind it starts here; such a type is no expression. -/
def startsGeneric (p : Place) (cs : List Char) : Bool :=
  match Word.read? cs with
  | some (w, behind) => !isTypeReserved w && (p.after? '[' behind).isSome
  | .none => false

/-- A type that no operator of types has joined. -/
def typeOperand (p : Place) (cs : List Char) : Option (Expr × List Char) :=
  if startsGeneric p cs then r.genericType p cs
  else
    match splatType p cs with
    | some t => some t
    | .none =>
      if ['*', '*'].isPrefixOf cs then .none
      else (r.expression p Level.lowest cs).map fun (o, stop) => (o.expr, stop)

/-- Whether a type that starts here is of a form of its own, which only operators of types can join. -/
def startsType (p : Place) (cs : List Char) : Bool := startsGeneric p cs || (splatType p cs).isSome

/-- One more operator of types: a member of all that stands before it, or a bar and a type. One that has a
join between its parts keeps its text, which starts at `start`. -/
def typeStep (p : Place) (start : List Char) (t : Expr) (cs : List Char) : Option (Expr × List Char) := do
  let (before, rest) ← p.token? false cs
  match rest with
  | '.' :: behind => do
    let (inside, name) ← p.within.token? false behind
    let (w, stop) ← Word.read? name
    if (before ++ inside).isEmpty then some (.attribute t (String.ofList w), stop)
    else some (.verbatim "member_type" (between start stop), stop)
  | '|' :: behind => do
    let (inside, right) ← p.within.token? true behind
    let (u, stop) ← r.typeOperand p right
    if (before ++ inside).isEmpty then some (.binary t "|" u, stop)
    else some (.verbatim "union_type" (between start stop), stop)
  | _ => .none

/-- A type up to its end, without a constraint. An expression has taken all its operators itself. -/
def unconstrained (p : Place) (cs : List Char) : Option (Expr × List Char) :=
  (r.typeOperand p cs).map fun (t, stop) =>
    if startsType p cs then Reading.repeated (r.typeStep p cs) t stop else (t, stop)

/-- A type, perhaps with another one behind a colon. -/
def typeRule (p : Place) (cs : List Char) : Option (Expr × List Char) := do
  let (t, stop) ← r.unconstrained p cs
  match p.after? ':' stop with
  | some behind =>
    match (p.within.operand? behind).bind (r.type p) with
    | some (_, stop) => some (.verbatim "constrained_type" (between cs stop), stop)
    | .none => some (t, stop)
  | .none => some (t, stop)

/-! ## Parameters of functions -/

/-- A type behind a colon. -/
def hint (p : Place) (cs : List Char) : Option (Expr × List Char) := do
  let behind ← p.after? ':' cs
  r.type p (← p.within.operand? behind)

/-- A parameter of a function. -/
def parameter (p : Place) (cs : List Char) : Option (Parameter × List Char) :=
  match r.markedParameter p cs with
  | some stop =>
    let stop :=
      if cs.head? = some '(' then ((r.defaultValue p stop).map Prod.snd).getD stop
      else if stop.length + 1 < cs.length then ((r.hint p stop).map Prod.snd).getD stop
      else stop
    some (⟨between cs stop, .unsupported, .none, .none⟩, stop)
  | .none => do
    let (w, stop) ← Word.read? cs
    let (type, stop) := match r.hint p stop with
      | some (t, stop) => (some t, stop)
      | .none => (.none, stop)
    let (value, stop) := match r.defaultValue p stop with
      | some (d, stop) => (some d, stop)
      | .none => (.none, stop)
    some (⟨String.ofList w, .positional, type, value⟩, stop)

/-- A join among parameters. -/
def joinParameter (text : String) : List Parameter := [⟨text, .unsupported, .none, .none⟩]

/-- Parameters, from behind the opening parenthesis to behind the closing one. -/
def parameters (p : Place) (cs : List Char) : Option (List Parameter × List Char) := do
  let q := p.bracketed
  let (before, start) ← q.token? true cs
  match start with
  | ')' :: stop => some (before.flatMap joinParameter, stop)
  | _ =>
    let (first, rest) ← r.parameter q start
    let (more, rest) := q.elements q joinParameter (r.parameter q) rest.length rest
    let (behind, stop) ← q.close? ')' rest
    some (before.flatMap joinParameter ++ first :: (more ++ behind.flatMap joinParameter), stop)

end PluginTools.Rules
