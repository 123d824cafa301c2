/-
Where the whole numbers of a source come from. `SignedLiteral` says of two places of a text that a literal stands
between them, perhaps with minus signs and in parentheses, and gives its value; `Sourced` says of an expression that
each number in it is the value of such a literal in the source. `Faithful` says so of all that rules read, and is kept
by the rules for lists, parameters and types.
-/
import PluginTools.Proofs.IntegerTexts
import PluginTools.Proofs.Remainders
import PluginTools.Source.Signature

namespace PluginTools

open Layout (Skips)
open Reading (Yields)

/-! ## Literals with their signs -/

/-- From one place to another stands a literal that is kept as its value, perhaps with minus signs before it and in
parentheses, and this is the value of it all. -/
inductive SignedLiteral : (start stop : List Char) → Int → Prop
  | literal {text digits : List Char} {base : Nat} (rest : List Char) : Numeral.IsInteger text base digits [] →
    Numeral.Fits base digits [] → Numeral.EndsDigits base rest →
    SignedLiteral (text ++ rest) rest (Numeral.value base digits)
  | minus {behind start stop : List Char} {i : Int} : Skips behind start → SignedLiteral start stop i →
    SignedLiteral ('-' :: behind) stop (-i)
  | parentheses {behind start rest stop : List Char} {i : Int} : Skips behind start → SignedLiteral start rest i →
    Skips rest (')' :: stop) → SignedLiteral ('(' :: behind) stop i

/-- No sign leads out of the range that the literals have. -/
theorem SignedLiteral.natAbs_le {start stop : List Char} {i : Int} (h : SignedLiteral start stop i) :
    i.natAbs ≤ 2 ^ 63 - 1 := by
  induction h with
  | literal _ _ hfits _ => exact hfits.2
  | minus _ _ ih => rwa [Int.natAbs_neg]
  | parentheses _ _ _ ih => exact ih

/-! ## Expressions of a source -/

namespace Expr

/-- One expression is another one or a part of it. -/
inductive Contains : Expr → Expr → Prop
  | self (e : Expr) : Contains e e
  | value {v x : Expr} {field : String} : Contains v x → Contains (.attribute v field) x
  | subscripted {v s x : Expr} : Contains v x → Contains (.subscript v s) x
  | slice {v s x : Expr} : Contains s x → Contains (.subscript v s) x
  | tuple {y x : Expr} {items : List Expr} : y ∈ items → Contains y x → Contains (.tuple items) x
  | list {y x : Expr} {items : List Expr} : y ∈ items → Contains y x → Contains (.list items) x
  | function {f x : Expr} {args : List Expr} {keywords : List (String × Expr)} : Contains f x →
    Contains (.call f args keywords) x
  | argument {f y x : Expr} {args : List Expr} {keywords : List (String × Expr)} : y ∈ args → Contains y x →
    Contains (.call f args keywords) x
  | keyword {f x : Expr} {k : String × Expr} {args : List Expr} {keywords : List (String × Expr)} : k ∈ keywords →
    Contains k.2 x → Contains (.call f args keywords) x
  | left {l r x : Expr} {op : String} : Contains l x → Contains (.binary l op r) x
  | right {l r x : Expr} {op : String} : Contains r x → Contains (.binary l op r) x

/-- A whole number is the value of a literal with its signs somewhere in the source, and one that is kept with its text
is a literal in the source that does not fit. -/
def Found (S : List Char) : Expr → Prop
  | .literal (.int i) => ∃ start stop, start <:+ S ∧ SignedLiteral start stop i
  | .verbatim kind text => kind = "integer" → ∃ base digits ending rest, text.toList ++ rest <:+ S ∧
    Numeral.IsInteger text.toList base digits ending ∧ (ending = [] → Numeral.EndsDigits base rest) ∧
    ¬Numeral.Fits base digits ending
  | _ => True

/-- Every whole number in the expression is found in the source. -/
def Sourced (S : List Char) (e : Expr) : Prop := ∀ x, e.Contains x → x.Found S

section

variable {S : List Char} {e f v s l r : Expr} {es args : List Expr} {keywords : List (String × Expr)}

theorem sourced_name (S : List Char) (id : String) : Sourced S (.name id) := by
  rintro _ ⟨⟩
  trivial

theorem sourced_literal {value : Literal} (h : ∀ i, value ≠ .int i) : Sourced S (.literal value) := by
  rintro _ ⟨⟩
  cases value with
  | int i => exact absurd rfl (h i)
  | _ => trivial

theorem sourced_verbatim {kind : String} (h : kind ≠ "integer") (text : String) : Sourced S (.verbatim kind text) := by
  rintro _ ⟨⟩
  exact fun hkind => absurd hkind h

theorem Sourced.attribute (h : v.Sourced S) (field : String) : Sourced S (.attribute v field) := by
  rintro _ (_ | hv)
  · trivial
  · exact h _ hv

theorem Sourced.subscript (hv : v.Sourced S) (hs : s.Sourced S) : Sourced S (.subscript v s) := by
  rintro _ (_ | _ | hx | hx)
  · trivial
  · exact hv _ hx
  · exact hs _ hx

theorem sourced_tuple (h : ∀ e ∈ es, e.Sourced S) : Sourced S (.tuple es) := by
  intro x hx
  cases hx with
  | self => trivial
  | tuple hy hx => exact h _ hy _ hx

theorem sourced_list (h : ∀ e ∈ es, e.Sourced S) : Sourced S (.list es) := by
  intro x hx
  cases hx with
  | self => trivial
  | list hy hx => exact h _ hy _ hx

theorem Sourced.call (hf : f.Sourced S) (hargs : ∀ e ∈ args, e.Sourced S) (hkeywords : ∀ k ∈ keywords, k.2.Sourced S) :
    Sourced S (.call f args keywords) := by
  intro x hx
  cases hx with
  | self => trivial
  | function hx => exact hf _ hx
  | argument hy hx => exact hargs _ hy _ hx
  | keyword hk hx => exact hkeywords _ hk _ hx

theorem Sourced.binary (hl : l.Sourced S) (hr : r.Sourced S) (op : String) : Sourced S (.binary l op r) := by
  intro x hx
  cases hx with
  | self => trivial
  | left hx => exact hl _ hx
  | right hx => exact hr _ hx

theorem sourced_ofJoin (S : List Char) (text : String) : Sourced S (.ofJoin text) := sourced_verbatim (by decide) text

end
end Expr

/-! ## Declarations of a source -/

/-- The expressions that are kept of a parameter. -/
def Parameter.exprs (p : Parameter) : List Expr := p.type.toList ++ p.default.toList

def Statement.exprs : Statement → List Expr
  | .expression value => [value]
  | .result value => value.toList
  | .other _ => []

def Function.exprs (f : Function) : List Expr :=
  f.decorators ++ f.parameters.flatMap Parameter.exprs ++ f.returns.toList ++ f.body.flatMap Statement.exprs

def Class.exprs (c : Class) : List Expr := c.bases ++ c.fields.map Prod.snd

/-- The expressions that are kept of a declaration. -/
def Declaration.exprs : Declaration → List Expr
  | .ofFunction f => f.exprs
  | .ofClass c => c.exprs
  | .other => []

/-- The expressions that are kept of a statement. -/
def Item.exprs : Item → List Expr
  | .expressions values => values
  | .typed _ type => [type]
  | .result value => value.toList
  | .ofFunction f => f.exprs
  | .ofClass c => c.exprs
  | .other => []

/-! ## What rules read -/

/-- The expressions that an operand may become. -/
def Operand.values (o : Operand) : List Expr :=
  o.expr :: match o.form with
    | .spread (some alone) _ => [alone]
    | .enclosed _ spread _ _ => [spread]
    | _ => []

/-- Every whole number that the operand may become part of is found in the source. -/
def Operand.Sourced (S : List Char) (o : Operand) : Prop := ∀ e ∈ o.values, e.Sourced S

/-- An expression that is read from one place to another: if it is a whole number, a literal of that value stands
there. -/
structure ReadAt (S start stop : List Char) (e : Expr) : Prop where
  sourced : e.Sourced S
  signed : ∀ i, e = .literal (.int i) → SignedLiteral start stop i

/-- An operand that is read at a place, with the text behind it. -/
structure OperandAt (S start : List Char) (x : Operand × List Char) : Prop where
  rest : x.2 <:+ S
  values : ∀ e ∈ x.1.values, ReadAt S start x.2 e

/-- An expression with the text behind it. -/
structure TypeAt (S : List Char) (x : Expr × List Char) : Prop where
  sourced : x.1.Sourced S
  rest : x.2 <:+ S

/-- What is kept of a part of a source, by the expressions in it, with the text behind it. -/
structure PartAt (S : List Char) (exprs : α → List Expr) (x : α × List Char) : Prop where
  sourced : ∀ e ∈ exprs x.1, e.Sourced S
  rest : x.2 <:+ S

section

variable {S start stop : List Char} {e : Expr} {x : Operand × List Char}

theorem ReadAt.of_ne (h : e.Sourced S) (hne : ∀ i, e ≠ .literal (.int i)) : ReadAt S start stop e :=
  ⟨h, fun i hi => absurd hi (hne i)⟩

theorem ReadAt.of_signed {i : Int} (hstart : start <:+ S) (h : SignedLiteral start stop i) :
    ReadAt S start stop (.literal (.int i)) := by
  refine ⟨?_, by rintro _ ⟨⟩; exact h⟩
  rintro _ ⟨⟩
  exact ⟨start, stop, hstart, h⟩

theorem OperandAt.sourced (h : OperandAt S start x) : x.1.Sourced S := fun e he => (h.values e he).sourced

theorem OperandAt.expr (h : OperandAt S start x) : x.1.expr.Sourced S := h.sourced _ List.mem_cons_self

theorem OperandAt.typeAt (h : OperandAt S start x) : TypeAt S (x.1.expr, x.2) := ⟨h.expr, h.rest⟩

/-- An operand that is one expression and nothing else. -/
theorem OperandAt.of_readAt {form : Form} (hrest : stop <:+ S) (h : ReadAt S start stop e)
    (hform : (⟨e, form⟩ : Operand).values = [e]) : OperandAt S start (⟨e, form⟩, stop) := by
  refine ⟨hrest, fun e' he' => ?_⟩
  rw [hform, List.mem_singleton] at he'
  exact he' ▸ h

theorem operandAt_verbatim {kind : String} {from' : List Char} (h : kind ≠ "integer") (hrest : stop <:+ S) :
    OperandAt S start (.verbatim kind from' stop, stop) :=
  .of_readAt hrest (.of_ne (Expr.sourced_verbatim h _) (by rintro _ ⟨⟩)) rfl

end

namespace Rules

/-- Whatever the rules read goes on in the source, and every whole number in it is found there. -/
structure Faithful (S : List Char) (r : Rules) : Prop where
  expression (p : Place) (level : Int) {cs : List Char} (hcs : cs <:+ S) : Yields (OperandAt S cs) (r.expression p level cs)
  primary (p : Place) (level : Int) {cs : List Char} (hcs : cs <:+ S) : Yields (OperandAt S cs) (r.primary p level cs)
  chain (p : Place) {cs : List Char} (hcs : cs <:+ S) : Yields (OperandAt S cs) (r.chain p cs)
  interpolation (p : Place) {cs : List Char} (hcs : cs <:+ S) : Yields (· <:+ S) (r.interpolation p cs)
  type (p : Place) {cs : List Char} (hcs : cs <:+ S) : Yields (TypeAt S) (r.type p cs)
  assigned (p : Place) {cs : List Char} (hcs : cs <:+ S) : Yields (· <:+ S) (r.assigned p cs)
  pattern (p : Place) {cs : List Char} (hcs : cs <:+ S) : Yields (· <:+ S) (r.pattern p cs)
  simplePattern (p : Place) {cs : List Char} (hcs : cs <:+ S) : Yields (· <:+ S) (r.simplePattern p cs)
  suite (column : Nat) {cs : List Char} (hcs : cs <:+ S) :
    Yields (PartAt S fun pieces : List Piece => pieces.flatMap (·.item.exprs)) (r.suite column cs)

namespace Faithful

variable {S cs : List Char} {r : Rules} (hr : r.Faithful S) (p : Place)

include hr

/-! ### Lists -/

theorem expression_rest (level : Int) (hcs : cs <:+ S) : Yields (·.2 <:+ S) (r.expression p level cs) :=
  (hr.expression p level hcs).mono fun _ h => h.rest

theorem expressionsUntil (ends : List Char → Bool) (hcs : cs <:+ S) :
    Yields (fun x => (∀ o ∈ x.1.operands, o.Sourced S) ∧ x.2 <:+ S) (r.expressionsUntil p ends cs) := by
  refine (hr.expression p _ hcs).bind fun ⟨first, rest⟩ hfirst => ?_
  have hmore := Place.items_induct p p.later (P := Operand.Sourced S)
    (f := fun cs => if ends cs then .none else r.expression p.later Level.lowest cs)
    (fun cs hcs => .ite .none ((hr.expression p.later _ hcs).mono fun _ h => ⟨h.sourced, h.rest⟩)) hfirst.rest
  have hall := List.forall_mem_cons.2 ⟨hfirst.sourced, hmore.1⟩
  dsimp only
  split
  · next h => exact .some ⟨hall, p.yields_mark? ',' hmore.2 _ h⟩
  · exact .some ⟨hall, hmore.2⟩

theorem expressions (hcs : cs <:+ S) :
    Yields (fun x => (∀ o ∈ x.1.operands, o.Sourced S) ∧ x.2 <:+ S) (r.expressions p cs) :=
  hr.expressionsUntil p _ hcs

theorem given (hcs : cs <:+ S) : Yields (fun x => (∀ o ∈ x.1.operands, o.Sourced S) ∧ x.2 <:+ S) (r.given p cs) :=
  hr.expressionsUntil p _ hcs

theorem yielded? (hcs : cs <:+ S) : Yields (OperandAt S cs) (r.yielded? p cs) := by
  refine (Word.yields_after? "yield" hcs).bind fun rest hrest => .some (operandAt_verbatim (by decide) ?_)
  split
  · next start h =>
    have hstart := p.yields_operand? hrest _ h
    split
    · next behind h =>
      have hbehind := Word.yields_after? "from" hstart _ h
      split
      · next h =>
        have hread := (p.within.yields_operand? hbehind).bind fun _ => hr.expression_rest p.later Level.lowest
        exact hread _ h
      · exact hstart
    · split
      · next h => exact (hr.given p.later hstart _ h).2
      · exact hrest
  · exact hrest

theorem target (hcs : cs <:+ S) : Yields (OperandAt S cs) (r.target p cs) := (hr.chain p hcs).filter _

theorem targets (hcs : cs <:+ S) : Yields (· <:+ S) (r.targets p cs) := by
  refine (hr.target p hcs).bind fun ⟨_, rest⟩ hfirst => .some (p.optionalComma_suffix ?_)
  exact Place.items_suffix p p
    (fun cs hcs => .ite .none ((hr.target p hcs).mono fun _ h => h.rest)) hfirst.rest

/-! ### Parameters -/

theorem starTarget (hcs : cs <:+ S) : Yields (· <:+ S) (r.starTarget p cs) :=
  (p.yields_operand? hcs).bind fun _ hstart => (hr.chain p hstart).bind fun _ h => .ite (.some h.rest) .none

theorem markedParameter (hcs : cs <:+ S) : Yields (· <:+ S) (r.markedParameter p cs) := by
  unfold Rules.markedParameter
  split
  · exact hr.starTarget p.within (suffix_of_cons (suffix_of_cons hcs))
  · exact .some ((hr.starTarget p (suffix_of_cons hcs)).getD (suffix_of_cons hcs))
  · exact .some (suffix_of_cons hcs)
  · exact (hr.target p hcs).map fun _ h => h.rest
  · exact .none

theorem defaultValue (hcs : cs <:+ S) : Yields (TypeAt S) (r.defaultValue p cs) :=
  (p.yields_after? '=' hcs).bind fun _ hbehind => (p.within.yields_operand? hbehind).bind fun _ hstart =>
    (hr.expression p _ hstart).bind fun _ h => .some h.typeAt

omit hr in
/-- A value that may be missing, of which nothing is kept. -/
theorem skipped {o : Option (Expr × List Char)} {stop : List Char} (h : Yields (TypeAt S) o) (hstop : stop <:+ S) :
    Yields (·.2 <:+ S) (match o with | some (_, stop) => some ((), stop) | .none => some ((), stop)) := by
  split
  · exact .some (h _ rfl).rest
  · exact .some hstop

theorem lambdaParameter (hcs : cs <:+ S) : Yields (·.2 <:+ S) (r.lambdaParameter p cs) := by
  unfold Rules.lambdaParameter
  dsimp only
  split
  · next h =>
    have hstop := hr.markedParameter p hcs _ h
    exact skipped (.ite .none (hr.defaultValue p hstop)) hstop
  · exact (Word.yields_read? hcs).snd.bind fun _ hstop => skipped (.ite .none (hr.defaultValue p hstop)) hstop

theorem lambda? {body : List Char → Option (Operand × List Char)}
    (hbody : ∀ cs, cs <:+ S → Yields (·.2 <:+ S) (body cs)) (hcs : cs <:+ S) :
    Yields (OperandAt S cs) (r.lambda? p body cs) := by
  have hend : ∀ behind, behind <:+ S → Yields (OperandAt S cs) ((p.within.operand? behind).bind fun start =>
      (body start).bind fun x => some (.verbatim "lambda" cs x.2, x.2)) := fun _ hbehind =>
    (p.within.yields_operand? hbehind).bind fun _ hstart => (hbody _ hstart).bind fun _ h =>
      .some (operandAt_verbatim (by decide) h)
  unfold Rules.lambda?
  refine (Word.yields_after? "lambda" hcs).bind fun behind hbehind => ?_
  refine (p.within.yields_operand? hbehind).bind fun start hstart => ?_
  dsimp only
  split
  · exact hend _ (suffix_of_cons hstart)
  · refine (Place.yields_list?_rest p.within (fun _ => hr.lambdaParameter p.within) hstart).bind fun _ h => ?_
    exact (p.within.yields_after? ':' (p.within.optionalComma_suffix h)).bind hend

/-! ### Types -/

theorem typeParameters (hcs : cs <:+ S) : Yields (PartAt S id) (r.typeParameters p cs) := by
  have hjoin : ∀ text, ∀ e ∈ [Expr.ofJoin text], e.Sourced S := fun text _ he =>
    List.mem_singleton.1 he ▸ Expr.sourced_ofJoin S text
  refine (p.within.yields_token? true hcs).bind fun ⟨before, start⟩ hstart => ?_
  refine (hr.type p.bracketed hstart).bind fun ⟨first, rest⟩ hfirst => ?_
  have hmore := Place.elements_induct (P := Expr.Sourced S) p.bracketed p.bracketed rest.length hjoin
    (fun _ hcs => (hr.type p.bracketed hcs).mono fun _ h => ⟨h.sourced, h.rest⟩) hfirst.rest
  refine (p.bracketed.yields_close? ']' hmore.2).bind fun ⟨behind, stop⟩ hstop => .some ⟨?_, hstop⟩
  have hjoins : ∀ joins : List String, ∀ e ∈ joins.flatMap fun text => [Expr.ofJoin text], e.Sourced S := by
    intro joins e he
    obtain ⟨text, -, he⟩ := List.mem_flatMap.1 he
    exact hjoin text e he
  refine List.forall_mem_append.2 ⟨hjoins before, List.forall_mem_cons.2 ⟨hfirst.sourced, ?_⟩⟩
  exact List.forall_mem_append.2 ⟨hmore.1, hjoins behind⟩

omit hr in
theorem splatType (hcs : cs <:+ S) : Yields (TypeAt S) (splatType p cs) := by
  unfold Rules.splatType
  split
  · refine (p.within.yields_name? (suffix_of_cons (suffix_of_cons hcs))).bind fun _ hstop => ?_
    exact .some ⟨Expr.sourced_verbatim (by decide) _, hstop⟩
  · refine (p.within.yields_operand? (suffix_of_cons hcs)).bind fun _ hstart => ?_
    refine (Word.yields_read? hstart).bind fun _ hstop => ?_
    exact .ite .none (.some ⟨Expr.sourced_verbatim (by decide) _, hstop⟩)
  · exact .none

omit hr in
theorem sourced_parametersOf {es : List Expr} (h : ∀ e ∈ es, e.Sourced S) : (parametersOf es).Sourced S := by
  unfold parametersOf
  split
  · exact h _ List.mem_cons_self
  · exact Expr.sourced_tuple h

theorem genericType (hcs : cs <:+ S) : Yields (TypeAt S) (r.genericType p cs) := by
  refine (Word.yields_read? hcs).bind fun ⟨w, behind⟩ hbehind => .ite .none ?_
  refine (p.yields_after? '[' hbehind).bind fun behind hbehind => ?_
  refine (hr.typeParameters p hbehind).bind fun ⟨ts, stop⟩ h => .some ⟨?_, h.2⟩
  exact (Expr.sourced_name S _).subscript (sourced_parametersOf h.1)

theorem typeOperand (hcs : cs <:+ S) : Yields (TypeAt S) (r.typeOperand p cs) := by
  refine .ite (hr.genericType p hcs) ?_
  split
  · next h => exact .some (splatType p hcs _ h)
  · exact .ite .none ((hr.expression p _ hcs).map fun _ h => h.typeAt)

theorem typeStep {start : List Char} {t : Expr} (ht : t.Sourced S) (hcs : cs <:+ S) :
    Yields (TypeAt S) (r.typeStep p start t cs) := by
  refine (p.yields_token? false hcs).bind fun ⟨before, rest⟩ hrest => ?_
  dsimp only
  split
  · refine (p.within.yields_token? false (suffix_of_cons hrest)).bind fun ⟨inside, name⟩ hname => ?_
    refine (Word.yields_read? hname).bind fun ⟨w, stop⟩ hstop => ?_
    exact .ite (.some ⟨ht.attribute _, hstop⟩) (.some ⟨Expr.sourced_verbatim (by decide) _, hstop⟩)
  · refine (p.within.yields_token? true (suffix_of_cons hrest)).bind fun ⟨inside, right⟩ hright => ?_
    refine (hr.typeOperand p hright).bind fun ⟨u, stop⟩ hu => ?_
    exact .ite (.some ⟨ht.binary hu.sourced "|", hu.rest⟩) (.some ⟨Expr.sourced_verbatim (by decide) _, hu.rest⟩)
  · exact .none

theorem unconstrained (hcs : cs <:+ S) : Yields (TypeAt S) (r.unconstrained p cs) := by
  refine (hr.typeOperand p hcs).map fun ⟨t, stop⟩ h => ?_
  dsimp only
  split
  · exact Reading.repeated_induct (I := fun e cs => TypeAt S (e, cs))
      (fun _ _ h => hr.typeStep p h.sourced h.rest) h
  · exact h

theorem typeRule (hcs : cs <:+ S) : Yields (TypeAt S) (r.typeRule p cs) := by
  refine (hr.unconstrained p hcs).bind fun ⟨t, stop⟩ ht => ?_
  dsimp only
  split
  · next behind hbehind =>
    have hbehind := p.yields_after? ':' ht.rest _ hbehind
    split
    · next h =>
      have hread := (p.within.yields_operand? hbehind).bind fun _ => hr.type p
      exact .some ⟨Expr.sourced_verbatim (by decide) _, (hread _ h).rest⟩
    · exact .some ht
  · exact .some ht

/-! ### Parameters of functions -/

theorem hint (hcs : cs <:+ S) : Yields (TypeAt S) (r.hint p cs) :=
  (p.yields_after? ':' hcs).bind fun _ hbehind => (p.within.yields_operand? hbehind).bind fun _ => hr.type p

omit hr in
/-- A type or a value that may be missing. -/
theorem optional {o : Option (Expr × List Char)} {stop : List Char} : Yields (TypeAt S) o → stop <:+ S →
    PartAt S Option.toList (match o with | some (e, stop) => (some e, stop) | .none => (.none, stop)) := by
  intro h hstop
  cases o with
  | none => exact ⟨List.forall_mem_nil _, hstop⟩
  | some x => exact ⟨List.forall_mem_singleton.2 (h x rfl).sourced, (h x rfl).rest⟩

theorem parameter (hcs : cs <:+ S) : Yields (PartAt S Parameter.exprs) (r.parameter p cs) := by
  unfold Rules.parameter
  split
  · next stop h =>
    have hstop := hr.markedParameter p hcs _ h
    refine .some ⟨List.forall_mem_nil _, ?_⟩
    dsimp only
    split
    · exact (((hr.defaultValue p hstop).mono fun _ h => h.rest).snd).getD hstop
    · split
      · exact (((hr.hint p hstop).mono fun _ h => h.rest).snd).getD hstop
      · exact hstop
  · refine (Word.yields_read? hcs).bind fun ⟨w, stop⟩ hstop => .some ?_
    have htype := optional (hr.hint p hstop) hstop
    have hvalue := optional (hr.defaultValue p htype.rest) htype.rest
    exact ⟨List.forall_mem_append.2 ⟨htype.sourced, hvalue.sourced⟩, hvalue.rest⟩

omit hr in
theorem exprs_joinParameter (joins : List String) : (joins.flatMap joinParameter).flatMap Parameter.exprs = [] := by
  induction joins with
  | nil => rfl
  | cons j joins ih => simpa [joinParameter, Parameter.exprs] using ih

theorem parameters (hcs : cs <:+ S) :
    Yields (PartAt S fun ps : List Parameter => ps.flatMap Parameter.exprs) (r.parameters p cs) := by
  refine (p.bracketed.yields_token? true hcs).bind fun ⟨before, start⟩ hstart => ?_
  dsimp only
  split
  · refine .some ⟨?_, suffix_of_cons hstart⟩
    rw [exprs_joinParameter]
    exact List.forall_mem_nil _
  · refine (hr.parameter p.bracketed hstart).bind fun ⟨first, rest⟩ hfirst => ?_
    have hmore := Place.elements_induct (P := fun x : Parameter => ∀ e ∈ x.exprs, e.Sourced S) p.bracketed p.bracketed
      rest.length (j := joinParameter) (by simp [joinParameter, Parameter.exprs])
      (fun _ hcs => (hr.parameter p.bracketed hcs).mono fun _ h => ⟨h.sourced, h.rest⟩) hfirst.rest
    refine (p.bracketed.yields_close? ')' hmore.2).bind fun ⟨behind, stop⟩ hstop => .some ⟨?_, hstop⟩
    simp only [List.flatMap_append, List.flatMap_cons, exprs_joinParameter, List.nil_append, List.append_nil,
      List.forall_mem_append, List.forall_mem_flatMap]
    exact ⟨hfirst.sourced, hmore.1⟩

end Faithful
end Rules
end PluginTools
