/-
Operands and operators. An operand is an atom with the attributes, subscripts and calls behind it; the
arithmetic operators join operands, comparisons join those, and the words `not`, `and`, `or`, `as`, `if` and
`lambda` join the rest. Each operator has a level, and an operator of a higher level binds tighter.
-/
import PluginTools.Source.Bracket

namespace PluginTools.Rules

variable (r : Rules)

/-! ## Atoms -/

/-- Whether a word behind `await` may be its operand: it is none where it may also go on with what stands
before it, such as `for` where a comprehension may begin. -/
def isAwaitable (p : Place) (word : List Char) : Bool :=
  if ["if", "and", "or", "in", "is", "not", "as"].any fun w => word == w.toList then false
  else if word = "else".toList then p.line || p.closer
  else if word = "for".toList then !p.clause
  else if word = "from".toList then !p.line || p.opening == .statement
  else true

/-- Whether the words and marks here start an operand, behind the word `await`. -/
def startsAwaited (p : Place) (cs : List Char) : Bool :=
  match Word.read? cs with
  | some (w, _) => isAwaitable p w
  | .none =>
    match cs with
    | [] => false
    | c :: rest =>
      if c = '-' ∨ c = '+' then rest.head? != some '='
      else if c = '*' then rest.head? != some '=' && rest.head? != some '*'
      else if c = '.' then rest.head?.any Number.isDigit || ['.', '.'].isPrefixOf rest
      else "([\x7b~'\"\x60".toList.contains c || Number.isDigit c

/-- The operand behind the word `await`, where the word is no name. -/
def awaited? (p : Place) (cs : List Char) : Option (List Char) := do
  let start ← p.operand? (← Word.after? "await" cs)
  if startsAwaited p start then some start else .none

/-- One string of a literal: its text, unless it has none, and what follows it. -/
def stringPart (p : Place) (cs : List Char) : Option (Option (List Char) × List Char) :=
  (Quotation.read? (r.interpolation p) cs).map fun (filled, stop) =>
    (if filled then .none else Quoted.literal? (cs.take (cs.length - stop.length)), stop)

/-- The strings that follow one, each behind blank space only. One behind a join makes all of them a
literal without a text. -/
def moreStrings (p : Place) : Nat → List Char → List (Option (List Char)) × List Char
  | 0, cs => ([], cs)
  | fuel + 1, cs =>
    let one := do
      let (joins, start) ← p.token? true cs
      if !Layout.startsString start then .none
      let (s, stop) ← r.stringPart p start
      some (if joins.isEmpty then s else .none, stop)
    match one with
    | some (s, stop) =>
      let (ss, stop) := moreStrings p fuel stop
      (s :: ss, stop)
    | .none => ([], cs)

/-- A string, or several next to each other, which are one literal. -/
def strings (p : Place) (cs : List Char) : Option (Operand × List Char) :=
  (r.stringPart p cs).map fun (first, stop) =>
    let (more, stop) := r.moreStrings p stop.length stop
    let kind := if more.isEmpty then "string" else "concatenated_string"
    let parts := (first :: more).mapM id
    match parts with
    | some parts => (⟨.text (String.ofList parts.flatten), .plain⟩, stop)
    | .none => (.verbatim kind cs stop, stop)

/-- The operand of a word: a constant or a name. -/
def ofWord (word : List Char) : Operand :=
  let w := String.ofList word
  if w = "True" then ⟨.literal (.bool true), .plain⟩
  else if w = "False" then ⟨.literal (.bool false), .plain⟩
  else if w = "None" then ⟨.literal .none, .plain⟩
  else ⟨.name w, .name⟩

def atom (p : Place) (cs : List Char) : Option (Operand × List Char) :=
  if cs.head? = some '(' then r.parenthesized p cs
  else if cs.head? = some '[' then r.bracketed p cs
  else if cs.head? = some '\x7b' then r.braced p cs
  else if Layout.startsString cs then r.strings p cs
  else
    match Numeral.read? cs with
    | some (e, stop) => some (⟨e, .plain⟩, stop)
    | .none =>
      match cs with
      | '.' :: '.' :: '.' :: stop => some (.verbatim "ellipsis" cs stop, stop)
      | _ => (Word.read? cs).map fun (w, stop) => (ofWord w, stop)

/-! ## Attributes, subscripts and calls -/

/-- One more attribute, subscript or call behind an operand that started at `start`. -/
def postfixStep (p : Place) (start : List Char) (o : Operand) (cs : List Char) :
    Option (Operand × List Char) := do
  match ← p.next? cs with
  | '.' :: behind =>
    let (field, stop) ← p.within.name? behind
    some (⟨.attribute o.expr field, .access⟩, stop)
  | '[' :: behind =>
    let (index, stop) ← r.subscript p behind
    some (⟨.subscript o.expr index, .access⟩, stop)
  | '(' :: behind => r.call p start o.expr behind
  | _ => .none

/-- Attributes, subscripts and calls up to the first attribute or subscript. -/
def firstAccess (p : Place) (start : List Char) : Nat → Operand → List Char → Option (Operand × List Char)
  | 0, _, _ => .none
  | fuel + 1, o, cs =>
    if o.isAccess then some (o, cs)
    else (r.postfixStep p start o cs).bind fun (o, cs) => firstAccess p start fuel o cs

/-- A star with the shortest name, attribute or subscript behind it, in which there may be more stars. -/
def splat (p : Place) : Nat → List Char → Option (Operand × List Char)
  | 0, _ => .none
  | fuel + 1, cs => do
    let start ← p.within.operand? (cs.drop 1)
    if (awaited? p start).isSome then .none
    let (o, stop) ← if start.head? = some '*' then splat p fuel start else r.atom p start
    let (_, stop) ← r.firstAccess p start (stop.length + 1) o stop
    some (⟨.verbatim "list_splat" (between cs stop), .splat⟩, stop)

/-- An operand with all that stands behind it. What stands behind a star belongs to the star's operand
where it ends in an attribute or a subscript at the end of a line, and otherwise to the star as a whole. -/
def chainRule (p : Place) (cs : List Char) : Option (Operand × List Char) := do
  if (awaited? p cs).isSome then .none
  else if cs.head? = some '*' then
    let (o, stop) ← r.splat p cs.length cs
    let (whole, stop) := Reading.repeated (r.postfixStep p cs) o stop
    if whole.isMember && p.endsLine stop then some (⟨.verbatim "list_splat" (between cs stop), .splat⟩, stop)
    else some (whole, stop)
  else
    let (o, stop) ← r.atom p cs
    some (Reading.repeated (r.postfixStep p cs) o stop)

/-! ## Arithmetic -/

/-- The value of an operator before an operand: a minus sign is part of a number. -/
def signed (op : Char) (e : Expr) (start stop : List Char) : Operand :=
  match op, e with
  | '-', .literal (.int i) => ⟨.literal (.int (-i)), .plain⟩
  | '-', .literal (.float d) => ⟨.literal (.float d.neg), .plain⟩
  | _, _ => .verbatim "unary_operator" start stop

def isSign (c : Char) : Bool := c == '-' || c == '+' || c == '~'

/-- An operand with the operators before it. -/
def signedOperand (p : Place) (cs : List Char) : Option (Operand × List Char) :=
  match awaited? p cs with
  | some start => (r.primary p.later Level.unary start).map fun (_, stop) => (.verbatim "await" cs stop, stop)
  | .none =>
    match cs with
    | c :: behind =>
      if isSign c then do
        let (o, stop) ← r.primary p.later Level.unary (← p.within.operand? behind)
        some (signed c o.expr cs stop, stop)
      else r.chain p cs
    | [] => .none

/-- An arithmetic operator, its level and what follows it. One with an equals sign behind it is none. -/
def arithmetic? (cs : List Char) : Option (String × Int × List Char) :=
  let single (op : String) (level : Int) (rest : List Char) :=
    if rest.head? = some '=' then .none else some (op, level, rest)
  match cs with
  | '*' :: '*' :: rest => single "**" Level.power rest
  | '*' :: rest => single "*" 19 rest
  | '/' :: '/' :: rest => single "//" 19 rest
  | '/' :: rest => single "/" 19 rest
  | '%' :: rest => single "%" 19 rest
  | '@' :: rest => single "@" 19 rest
  | '+' :: rest => single "+" 18 rest
  | '-' :: rest => single "-" 18 rest
  | '<' :: '<' :: rest => single "<<" 17 rest
  | '>' :: '>' :: rest => single ">>" 17 rest
  | '^' :: rest => single "^" 16 rest
  | '&' :: rest => single "&" 15 rest
  | '|' :: rest => single "|" 14 rest
  | _ => .none

/-- One more operator with its right operand. Powers group to the right and all else to the left. -/
def arithmeticStep (p : Place) (level : Int) (left : Operand) (cs : List Char) :
    Option (Operand × List Char) := do
  let (op, tight, behind) ← arithmetic? (← p.next? cs)
  if tight ≤ level then .none
  let inner := if tight = Level.power then Level.unary else tight
  let (right, stop) ← r.primary p.later inner (← p.within.operand? behind)
  some (⟨.binary left.expr op right.expr, .plain⟩, stop)

def primaryRule (p : Place) (level : Int) (cs : List Char) : Option (Operand × List Char) :=
  (r.signedOperand p cs).map fun (o, stop) => Reading.repeated (r.arithmeticStep p level) o stop

/-! ## Comparisons -/

/-- The text behind a comparison operator. -/
def comparator? (p : Place) (cs : List Char) : Option (List Char) :=
  match cs with
  | '<' :: '<' :: _ | '>' :: '>' :: _ => .none
  | '<' :: '=' :: rest | '<' :: '>' :: rest | '>' :: '=' :: rest | '=' :: '=' :: rest | '!' :: '=' :: rest =>
    some rest
  | '<' :: rest | '>' :: rest => some rest
  | _ =>
    match Word.after? "in" cs with
    | some rest => some rest
    | .none =>
      match Word.after? "not" cs with
      | some rest => p.within.word? "in" rest
      | .none =>
        match Word.after? "is" cs with
        | some rest => some ((p.within.word? "not" rest).getD rest)
        | .none => .none

/-- One more comparison with its right operand. -/
def comparisonStep (p : Place) (cs : List Char) : Option (List Char) := do
  let behind ← comparator? p (← p.next? cs)
  let (_, stop) ← r.primary p.later Level.comparison (← p.within.operand? behind)
  some stop

/-- An operand or a chain of comparisons. -/
def compared (p : Place) (cs : List Char) : Option (Operand × List Char) := do
  let (o, stop) ← r.primary p Level.comparison cs
  match r.comparisonStep p stop with
  | some stop =>
    let ((), stop) := Reading.repeated (fun () cs => (r.comparisonStep p cs).map ((), ·)) () stop
    some (.verbatim "comparison_operator" cs stop, stop)
  | .none => some (o, stop)

/-! ## Words -/

/-- What an operator of words makes of its left operand, from the operator on. -/
def wordStep (p : Place) (level : Int) (start : List Char) (_ : Operand) (cs : List Char) :
    Option (Operand × List Char) := do
  let (w, behind) ← Word.read? (← p.next? cs)
  let joined (kind : String) (tight inner : Int) : Option (Operand × List Char) := do
    if tight ≤ level then .none
    let (_, stop) ← r.expression p.later inner (← p.within.operand? behind)
    some (.verbatim kind start stop, stop)
  if w = "and".toList then joined "boolean_operator" Level.conjunction Level.conjunction
  else if w = "or".toList then joined "boolean_operator" Level.disjunction Level.disjunction
  else if w = "as".toList then joined "as_pattern" Level.naming Level.naming
  else if w = "if".toList then do
    if Level.conditional ≤ level then .none
    let q := p.within
    let (_, stop) ← r.expression q Level.lowest (← q.operand? behind)
    let behind ← q.word? "else" stop
    let (_, stop) ← r.expression p.later (Level.conditional - 1) (← q.operand? behind)
    some (.verbatim "conditional_expression" start stop, stop)
  else .none

/-- A name that is given the value behind it. -/
def named? (p : Place) (start : List Char) (o : Operand) (cs : List Char) : Option (Operand × List Char) := do
  if !o.isName then .none
  match ← p.next? cs with
  | ':' :: '=' :: behind =>
    let (_, stop) ← r.expression p.later Level.naming (← p.within.operand? behind)
    some (.verbatim "named_expression" start stop, stop)
  | _ => .none

/-- An expression without the operators of words behind it. -/
def leading (p : Place) (cs : List Char) : Option (Operand × List Char) :=
  match Word.after? "not" cs with
  | some behind => do
    let (_, stop) ← r.expression p.later Level.negation (← p.within.operand? behind)
    some (.verbatim "not_operator" cs stop, stop)
  | .none =>
    if Word.opens "lambda" cs then r.lambda? p (r.expression p.later Level.lowest) cs
    else do
      let (o, stop) ← r.compared p cs
      some ((r.named? p cs o stop).getD (o, stop))

def expressionRule (p : Place) (level : Int) (cs : List Char) : Option (Operand × List Char) :=
  (r.leading p cs).map fun (o, stop) => Reading.repeated (r.wordStep p level cs) o stop

/-! ## Interpolations -/

/-- The rest of a format, up to the closing brace of its interpolation. -/
def formatFrom (p : Place) : Nat → List Char → Option (List Char)
  | 0, _ => .none
  | _ + 1, [] => .none
  | fuel + 1, c :: cs =>
    if c = '\x7d' then some cs
    else if c = '\x7b' then (r.interpolation p cs).bind (formatFrom p fuel)
    else formatFrom p fuel cs

/-- A letter behind an exclamation mark. -/
def conversion? (p : Place) (cs : List Char) : Option (List Char) :=
  match p.next? cs with
  | some ('!' :: c :: rest) => if 'a' ≤ c ∧ c ≤ 'z' then some rest else .none
  | _ => .none

/-- An interpolation: expressions, then perhaps an equals sign, a conversion and a format. -/
def interpolationRule (p : Place) (cs : List Char) : Option (List Char) := do
  let q := { p.bracketed with quiet := true }
  let start ← q.within.operand? cs
  let stop ← match r.yielded? q start with
    | some (_, stop) => some stop
    | .none => (r.expressions q start).map Prod.snd
  let stop := (q.after? '=' stop).getD stop
  let stop := (conversion? q stop).getD stop
  match ← q.next? stop with
  | '\x7d' :: rest => some rest
  | ':' :: rest => r.formatFrom q (rest.length + 1) rest
  | _ => .none

end PluginTools.Rules
