/-
The rules for patterns and statements keep to the source. Nothing of a pattern is kept, and what is kept of statements
are expressions and types that were read in them.
-/
import PluginTools.Proofs.ConstantExpressions
import PluginTools.Source.Statement

namespace PluginTools

open Reading (Yields)

namespace Rules

variable {S cs : List Char} {r : Rules} (p : Place)

/-! ## Names and numbers -/

section

theorem yields_dottedName (hcs : cs <:+ S) : Yields (· <:+ S) (dottedName p cs) := by
  refine (Word.yields_read? hcs).bind fun ⟨_, stop⟩ hstop => .some ?_
  refine Reading.repeated_induct (I := fun _ cs => cs <:+ S) (fun _ cs h => ?_) hstop
  refine (p.yields_after? '.' h).bind fun behind hbehind => ?_
  exact (p.within.yields_name? hbehind).bind fun _ h => .some h

theorem yields_numeral (hcs : cs <:+ S) : Yields (·.2 <:+ S) (Numeral.read? cs) := fun _ h => (Faithful.number hcs h).rest

theorem yields_numberPattern (hcs : cs <:+ S) : Yields (· <:+ S) (numberPattern p cs) := by
  refine (yields_numeral hcs).bind fun ⟨_, stop⟩ hstop => .some (Yields.getD (P := (· <:+ S)) ?_ hstop)
  have hsecond : ∀ behind, behind <:+ S → Yields (· <:+ S) ((p.within.next? behind).bind fun start =>
      (Numeral.read? start).bind fun x => some x.2) := fun _ hbehind =>
    (p.within.yields_next? hbehind).bind fun _ hstart => (yields_numeral hstart).bind fun _ h => .some h
  refine (p.yields_next? hstop).bind fun next hnext => ?_
  dsimp only
  split
  · exact hsecond _ (suffix_of_cons hnext)
  · exact hsecond _ (suffix_of_cons hnext)
  · exact .none

theorem yields_starPattern (hcs : cs <:+ S) : Yields (· <:+ S) (starPattern p cs) := by
  unfold starPattern
  split
  · exact (p.within.yields_name? (suffix_of_cons (suffix_of_cons hcs))).snd
  · exact (p.within.yields_name? (suffix_of_cons hcs)).snd
  · exact .none

theorem yields_patternsIn {close : Char} {item : Place → List Char → Option (List Char)}
    (hitem : ∀ p cs, cs <:+ S → Yields (· <:+ S) (item p cs)) (hcs : cs <:+ S) :
    Yields (· <:+ S) (patternsIn p close item cs) := by
  refine (p.bracketed.yields_operand? hcs).bind fun start hstart => ?_
  dsimp only
  split
  · refine .ite (.some (suffix_of_cons hstart)) ?_
    refine (Place.yields_list?_rest p.bracketed (fun cs hcs => (hitem p.bracketed cs hcs).map fun _ h => h) hstart).bind
      fun ⟨_, stop⟩ hstop => ?_
    exact p.bracketed.yields_after? close (p.bracketed.optionalComma_suffix hstop)
  · exact .none

theorem yields_nextStatement (column : Nat) (hcs : cs <:+ S) : Yields (· <:+ S) (nextStatement column cs) := by
  unfold nextStatement
  split
  · next h => exact .some (Layout.suffix_of_read rfl (by rw [h]; rfl) hcs)
  · exact .none

theorem yields_augmented? (hcs : cs <:+ S) : Yields (· <:+ S) (augmented? cs) := by
  intro rest h
  obtain ⟨o, -, h⟩ := List.exists_of_findSome?_eq_some h
  split at h <;> cases h
  exact (List.drop_suffix _ _).trans hcs

end

namespace Faithful

variable (hr : r.Faithful S)

include hr

/-! ## Patterns -/

theorem namePattern (hcs : cs <:+ S) : Yields (· <:+ S) (r.namePattern p cs) := by
  refine (Word.yields_read? hcs).bind fun ⟨w, behind⟩ hbehind => .ite (.some hbehind) ?_
  refine (yields_dottedName p hcs).bind fun stop hstop => ?_
  split
  · next h => exact yields_patternsIn p (fun p _ => hr.pattern p) (p.yields_after? '(' hstop _ h)
  · exact .some hstop

/-- A key with the pattern behind its colon. -/
theorem keyedPattern (hcs : cs <:+ S) : Yields (· <:+ S) (do
    let behind ← p.within.after? ':' (← r.simplePattern p.within cs)
    r.pattern p (← p.within.operand? behind)) := by
  refine (hr.simplePattern p.within hcs).bind fun stop hstop => (p.within.yields_after? ':' hstop).bind fun _ hbehind => ?_
  exact (p.within.yields_operand? hbehind).bind fun _ => hr.pattern p

theorem keyPattern (hcs : cs <:+ S) : Yields (· <:+ S) (r.keyPattern p cs) := by
  unfold Rules.keyPattern
  dsimp only
  split
  · next h => exact .some (hr.keyedPattern p hcs _ h)
  · exact yields_starPattern p hcs

theorem patternAtom (hcs : cs <:+ S) : Yields (· <:+ S) (r.patternAtom p cs) := by
  unfold Rules.patternAtom
  split
  · exact yields_patternsIn p (fun p _ => hr.pattern p) (suffix_of_cons hcs)
  · exact yields_patternsIn p (fun p _ => hr.pattern p) (suffix_of_cons hcs)
  · exact yields_patternsIn p (fun p _ => hr.keyPattern p) (suffix_of_cons hcs)
  · exact yields_starPattern p hcs
  · exact (p.within.yields_next? (suffix_of_cons hcs)).bind fun _ => yields_numberPattern p
  · refine .ite (Yields.snd ((hr.strings p hcs).mono fun _ h => h.rest)) ?_
    split
    · next h => exact .some (yields_numberPattern p hcs _ h)
    · exact hr.namePattern p hcs

theorem simplePatternRule (hcs : cs <:+ S) : Yields (· <:+ S) (r.simplePatternRule p cs) := by
  refine (hr.patternAtom p hcs).bind fun stop hstop => .some ?_
  refine Reading.repeated_induct (I := fun _ cs => cs <:+ S) (fun _ cs h => ?_) hstop
  refine (p.yields_after? '|' h).bind fun behind hbehind => (p.within.yields_operand? hbehind).bind fun _ hstart => ?_
  exact (hr.patternAtom p hstart).map fun _ h => h

theorem keywordPattern (hcs : cs <:+ S) : Yields (· <:+ S) (r.keywordPattern p cs) := by
  refine (Word.yields_read? hcs).bind fun ⟨w, behind⟩ hbehind => .ite .none ?_
  refine (p.yields_after? '=' hbehind).bind fun _ hbehind => ?_
  exact (p.within.yields_operand? hbehind).bind fun _ => hr.simplePatternRule p

omit hr in
/-- A pattern may get names. -/
theorem patternNames_suffix (hcs : cs <:+ S) : (Reading.repeated (fun (_ : Unit) cs => do
    let (_, stop) ← p.within.name? (← p.word? "as" cs)
    some ((), stop)) () cs).2 <:+ S := by
  refine Reading.repeated_induct (I := fun _ cs => cs <:+ S) (fun _ cs h => ?_) hcs
  refine (p.yields_word? "as" h).bind fun _ hstart => ?_
  exact (p.within.yields_name? hstart).bind fun _ h => .some h

theorem patternRule (hcs : cs <:+ S) : Yields (· <:+ S) (r.patternRule p cs) := by
  unfold Rules.patternRule
  dsimp only
  split
  · next h => exact .some (patternNames_suffix p (hr.keywordPattern p hcs _ h))
  · exact (hr.simplePatternRule p hcs).bind fun _ h => .some (patternNames_suffix p h)

/-! ## Assignments -/

theorem rightSide (hcs : cs <:+ S) : Yields (· <:+ S) (r.rightSide p cs) :=
  (p.within.yields_operand? hcs).bind fun _ => hr.assigned p

omit hr in
/-- A statement of which nothing is kept. -/
theorem other {o : Option (List Char)} (h : Yields (· <:+ S) o) : Yields (PartAt S Item.exprs) (o.map (.other, ·)) :=
  h.map fun _ h => ⟨List.forall_mem_nil _, h⟩

/-- A value behind a type may be missing. -/
theorem typedValue_suffix (hcs : cs <:+ S) : (match p.after? '=' cs with
    | some behind => (r.rightSide p behind).getD cs
    | .none => cs) <:+ S := by
  split
  · next h => exact (hr.rightSide p (p.yields_after? '=' hcs _ h)).getD hcs
  · exact hcs

theorem assignment (os : List Operand) (comma : Bool) (hcs : cs <:+ S) :
    Yields (PartAt S Item.exprs) (r.assignment p os comma cs) := by
  refine .ite .none ?_
  refine (p.yields_next? hcs).bind fun start hstart => ?_
  dsimp only
  split
  · next h => exact other (hr.rightSide p (yields_augmented? hstart _ h))
  · split
    · exact .ite .none (other (hr.rightSide p (suffix_of_cons hstart)))
    · refine (p.within.yields_operand? (suffix_of_cons hstart)).bind fun start hstart => ?_
      refine (hr.type p hstart).bind fun ⟨type, stop⟩ htype => ?_
      have hstop := hr.typedValue_suffix p htype.rest
      dsimp only
      split
      · exact .some ⟨List.forall_mem_singleton.2 htype.sourced, hstop⟩
      · exact .some ⟨List.forall_mem_nil _, hstop⟩
    · exact .none

theorem unfolded (isRight : Bool) (hcs : cs <:+ S) : Yields (PartAt S Item.exprs) (r.unfolded p isRight cs) := by
  refine .ite .none ?_
  refine (hr.target p hcs).bind fun ⟨first, stop⟩ hfirst => .ite .none ?_
  generalize (if p.hasComma stop && isRight then p.later else p.within) = q
  have hmore := Place.items_suffix q q
    (f := fun cs => if ["in"].any (fun w => Word.opens w cs) then .none else r.target q cs)
    (fun cs hcs => .ite .none ((hr.target q hcs).mono fun _ h => h.rest)) hfirst.rest
  refine (q.yields_next? (q.optionalComma_suffix hmore)).bind fun start hstart => ?_
  exact (hr.assignment p _ _ hstart).bind fun ⟨item, stop⟩ h => .ite (.some h) .none

theorem expressionStatement (isRight : Bool) (hcs : cs <:+ S) :
    Yields (PartAt S Item.exprs) (r.expressionStatement p isRight cs) := by
  generalize hq : ({ p with opening := .statement } : Place) = q
  unfold Rules.expressionStatement
  rw [hq]
  dsimp only
  split
  · next h =>
    have ho := hr.yielded? q hcs _ h
    exact .some ⟨List.forall_mem_singleton.2 ho.expr, ho.rest⟩
  · split
    · next h => exact .some (hr.unfolded q isRight hcs _ h)
    · refine (hr.expressions q hcs).bind fun ⟨es, stop⟩ hes => .some (Yields.getD (P := PartAt S Item.exprs) ?_ ⟨?_, hes.2⟩)
      · exact .ite .none (hr.assignment q _ _ hes.2)
      · dsimp only
        split
        · exact List.forall_mem_nil _
        · exact List.forall_mem_map.2 fun o ho => hes.1 o ho _ List.mem_cons_self

theorem targetList (hcs : cs <:+ S) : Yields (· <:+ S) (r.targetList p cs) :=
  (Place.yields_list?_rest p (fun _ hcs => (hr.target p hcs).mono fun _ h => h.rest) hcs).map fun _ h =>
    p.optionalComma_suffix h

theorem assignedRule (hcs : cs <:+ S) : Yields (· <:+ S) (r.assignedRule p cs) := by
  unfold Rules.assignedRule
  split
  · next h =>
    have hstop := Yields.snd ((hr.expressionStatement p true hcs).mono fun _ h => h.rest) _ h
    exact .ite (.some hstop) ((hr.targetList p.later hcs).or (.some hstop))
  · exact .none

/-! ## Simple statements -/

theorem returned (hcs : cs <:+ S) : PartAt S Item.exprs (r.returned p cs) := by
  unfold Rules.returned
  split
  · next joins start h =>
    have hstart := p.yields_token? true hcs _ h
    split
    · next es stop h =>
      have hes := hr.given p hstart _ h
      refine ⟨List.forall_mem_singleton.2 ?_, hes.2⟩
      split
      · exact Expr.sourced_ofJoin S _
      · next hoperands _ => exact hes.1 _ (by simp [hoperands]) _ List.mem_cons_self
      · exact Expr.sourced_verbatim (by decide) _
    · exact ⟨List.forall_mem_nil _, hcs⟩
  · exact ⟨List.forall_mem_nil _, hcs⟩

theorem raised (hcs : cs <:+ S) : Yields (· <:+ S) (r.raised p cs) := by
  have hvalues := (p.yields_operand? hcs).bind fun cs hcs =>
    Yields.ite (c := Word.opens "from" cs) .none ((hr.given p hcs).mono fun _ h => h.2)
  have hstop := hvalues.snd.getD hcs
  unfold Rules.raised
  dsimp only
  split
  · next h =>
    refine (p.within.yields_operand? (p.yields_word? "from" hstop _ h)).bind fun _ hstart => ?_
    exact (hr.expression_rest p _ hstart).bind fun _ h => .some h
  · exact .some hstop

theorem plainExpressions (hcs : cs <:+ S) : Yields (· <:+ S) (r.plainExpressions p cs) := by
  refine (p.within.yields_operand? hcs).bind fun start hstart => ?_
  refine (hr.expression_rest p Level.lowest hstart).bind fun ⟨_, stop⟩ hstop => .some ?_
  exact Place.items_suffix p p.within (fun _ => hr.expression_rest p Level.lowest) hstop

omit hr in
theorem names (hcs : cs <:+ S) : Yields (· <:+ S) (names p cs) := by
  have hitem : ∀ cs, cs <:+ S → Yields (·.2 <:+ S) ((Word.read? cs).map fun x => ((), x.2)) := fun _ hcs =>
    (Word.yields_read? hcs).map fun _ h => h
  refine (p.within.yields_next? hcs).bind fun start hstart => (hitem start hstart).bind fun ⟨_, stop⟩ hstop => .some ?_
  exact Place.items_suffix p p.within hitem hstop

omit hr in
theorem imported (hcs : cs <:+ S) : Yields (·.2 <:+ S) (imported p cs) := by
  refine (yields_dottedName p hcs).bind fun stop hstop => ?_
  split
  · next h => exact (p.within.yields_name? (p.yields_word? "as" hstop _ h)).map fun _ h => h
  · exact .some hstop

omit hr in
theorem imports (hcs : cs <:+ S) : Yields (· <:+ S) (imports p cs) := by
  refine (p.within.yields_next? hcs).bind fun start hstart => ?_
  exact (Place.yields_list?_rest p (fun _ => imported p) hstart).bind fun _ h => .some (p.optionalComma_suffix h)

omit hr in
theorem importsFrom (all : Bool) (hcs : cs <:+ S) : Yields (· <:+ S) (importsFrom p all cs) := by
  refine (p.within.yields_next? hcs).bind fun start hstart => ?_
  split
  · exact .ite (.some (suffix_of_cons hstart)) .none
  · exact (imports p.bracketed (suffix_of_cons hstart)).bind fun _ => p.bracketed.yields_after? ')'
  · exact imports p hcs

omit hr in
theorem leadingDots_suffix (fuel : Nat) (hcs : cs <:+ S) : leadingDots p fuel cs <:+ S := by
  induction fuel generalizing cs with
  | zero => exact hcs
  | succ fuel ih =>
    rw [leadingDots]
    split
    · next h => exact ih (p.yields_after? '.' hcs _ h)
    · exact hcs

omit hr in
theorem fromModule (hcs : cs <:+ S) : Yields (· <:+ S) (fromModule p cs) := by
  have hend : ∀ behind, behind <:+ S →
      Yields (· <:+ S) ((p.within.word? "import" behind).bind (Rules.importsFrom p true)) := fun _ hbehind =>
    (p.within.yields_word? "import" hbehind).bind fun _ => importsFrom p true
  refine (p.within.yields_next? hcs).bind fun start hstart => ?_
  dsimp only
  split
  · next h =>
    exact (p.within.yields_word? "import" (Word.yields_after? _ hstart _ h)).bind fun _ => importsFrom p false
  · have hdots := leadingDots_suffix p.within start.length hstart
    refine .ite (.ite (hend _ hdots) ?_) ((yields_dottedName p.within hstart).bind hend)
    exact (p.within.yields_next? hdots).bind fun _ h => (yields_dottedName p.within h).bind hend

theorem closedExpression (hcs : cs <:+ S) : Yields (PartAt S Item.exprs) (r.closedExpression p cs) :=
  (hr.expressionStatement p false hcs).filter _

theorem printed (hcs : cs <:+ S) : Yields (· <:+ S) (r.printed p cs) := by
  refine (p.yields_operand? hcs).bind fun start hstart => ?_
  dsimp only
  split
  · refine .ite .none ?_
    refine (p.within.yields_operand? (suffix_of_cons (suffix_of_cons hstart))).bind fun start hstart => ?_
    refine (hr.expression_rest p Level.lowest hstart).bind fun ⟨_, stop⟩ hstop => .some (p.optionalComma_suffix ?_)
    exact Place.items_suffix p p (fun _ => hr.expression_rest p Level.lowest) hstop
  · exact .ite .none (Yields.snd ((hr.expressions p hstart).mono fun _ h => h.2))

theorem printStatement {behind : List Char} (hbehind : behind <:+ S) (hcs : cs <:+ S) :
    Yields (PartAt S Item.exprs) (r.printStatement p cs behind) := by
  unfold Rules.printStatement
  split
  · next h => exact .some ((Yields.ite .none (hr.closedExpression p hcs)) _ h)
  · exact other (hr.printed p hbehind)

theorem executedIn (hcs : cs <:+ S) : Yields (· <:+ S) (match p.word? "in" cs with
    | some behind => r.plainExpressions p behind
    | .none => some cs) := by
  split
  · next h => exact hr.plainExpressions p (p.yields_word? "in" hcs _ h)
  · exact .some hcs

theorem executed (hcs : cs <:+ S) : Yields (· <:+ S) (r.executed p cs) := by
  refine (p.yields_operand? hcs).bind fun start hstart => .ite .none ?_
  exact .ite ((hr.stringPart p hstart).snd.bind fun _ => hr.executedIn p)
    ((Word.yields_read? hstart).snd.bind fun _ => hr.executedIn p)

theorem execStatement {behind : List Char} (hbehind : behind <:+ S) (hcs : cs <:+ S) :
    Yields (PartAt S Item.exprs) (r.execStatement p cs behind) := by
  unfold Rules.execStatement
  split
  · next h => exact .some ⟨List.forall_mem_nil _, hr.executed p hbehind _ h⟩
  · exact hr.expressionStatement p false hcs

theorem aliased (hcs : cs <:+ S) : Yields (· <:+ S) (r.aliased p cs) := by
  refine (p.yields_operand? hcs).bind fun start hstart => .ite .none ?_
  refine (hr.type p.within hstart).bind fun ⟨_, stop⟩ hstop => ?_
  refine (p.within.yields_after? '=' hstop.rest).bind fun behind hbehind => ?_
  exact (p.within.yields_operand? hbehind).bind fun _ hstart => (hr.type p hstart).bind fun _ h => .some h.rest

theorem typeStatement {behind : List Char} (hbehind : behind <:+ S) (hcs : cs <:+ S) :
    Yields (PartAt S Item.exprs) (r.typeStatement p cs behind) := by
  unfold Rules.typeStatement
  split
  · next h => exact .some ⟨List.forall_mem_nil _, (hr.aliased p hbehind).filter _ _ h⟩
  · exact hr.expressionStatement p false hcs

theorem simpleStatement (hcs : cs <:+ S) : Yields (PartAt S Item.exprs) (r.simpleStatement p cs) := by
  unfold Rules.simpleStatement
  dsimp only
  split
  · exact hr.expressionStatement p false hcs
  · next w behind h =>
    have hbehind := Word.yields_read? hcs _ h
    refine .ite (.some (hr.returned p hbehind)) (.ite (.some ⟨List.forall_mem_nil _, hbehind⟩) ?_)
    refine .ite (other (imports p hbehind)) (.ite (other (fromModule p hbehind)) ?_)
    refine .ite (other (hr.raised p hbehind)) (.ite (other (hr.plainExpressions p hbehind)) ?_)
    refine .ite (other ((p.within.yields_operand? hbehind).bind fun _ h => ?_)) (.ite (other (names p hbehind)) ?_)
    · exact Yields.snd ((hr.given p h).mono fun _ h => h.2)
    · exact .ite (hr.printStatement p hbehind hcs) (.ite (hr.execStatement p hbehind hcs)
        (.ite (hr.typeStatement p hbehind hcs) (hr.expressionStatement p false hcs)))

/-! ## Lines -/

omit hr in
theorem exprs_joinPiece (joins : List String) : (joins.map joinPiece).flatMap (·.item.exprs) = [] := by
  induction joins with
  | nil => rfl
  | cons j joins ih => exact ih

theorem lineFrom (column fuel : Nat) (hcs : cs <:+ S) :
    Yields (PartAt S fun pieces : List Piece => pieces.flatMap (·.item.exprs)) (r.lineFrom column fuel cs) := by
  induction fuel generalizing cs with
  | zero => exact .none
  | succ fuel ih =>
    rw [Rules.lineFrom]
    refine (hr.simpleStatement (Place.lineAt column) hcs).bind fun ⟨item, stop⟩ hitem => ?_
    have hpieces : ∀ (text : String) (joins : List String),
        ∀ e ∈ (⟨item, text⟩ :: joins.map joinPiece : List Piece).flatMap (·.item.exprs), e.Sourced S := by
      intro text joins
      rw [List.flatMap_cons, exprs_joinPiece, List.append_nil]
      exact hitem.sourced
    dsimp only
    split
    · next hgap => exact .some ⟨hpieces _ _, Layout.suffix_of_read hgap rfl hitem.rest⟩
    · next hgap =>
      have hbehind := suffix_of_cons (Layout.suffix_of_read hgap rfl hitem.rest)
      split
      · next hgap =>
        refine .some ⟨?_, Layout.suffix_of_read hgap rfl hbehind⟩
        rw [List.flatMap_append, exprs_joinPiece, List.append_nil]
        exact hpieces _ _
      · next hgap =>
        refine (ih (Layout.suffix_of_read hgap rfl hbehind)).bind fun ⟨more, rest⟩ hmore => .some ⟨?_, hmore.rest⟩
        rw [List.flatMap_append, List.flatMap_append, exprs_joinPiece, List.append_nil]
        exact List.forall_mem_append.2 ⟨hpieces _ _, hmore.sourced⟩
      · exact .none
    · exact .none

/-! ## Compound statements -/

theorem body (column : Nat) (hcs : cs <:+ S) :
    Yields (PartAt S fun pieces : List Piece => pieces.flatMap (·.item.exprs)) (r.body column cs) :=
  ((Place.lineAt column).within.yields_after? ':' hcs).bind fun _ => hr.suite column

theorem body_rest (column : Nat) (hcs : cs <:+ S) : Yields (· <:+ S) ((r.body column cs).map Prod.snd) :=
  Yields.snd ((hr.body column hcs).mono fun _ h => h.rest)

theorem conditionBody (column : Nat) (hcs : cs <:+ S) : Yields (· <:+ S) (r.conditionBody column cs) :=
  ((Place.lineAt column).within.yields_operand? hcs).bind fun _ hstart =>
    (hr.expression_rest _ _ hstart).bind fun _ => hr.body_rest column

theorem optionalClause (column : Nat) (word : String) (hcs : cs <:+ S) :
    Yields (· <:+ S) (r.optionalClause column word cs) := by
  unfold Rules.optionalClause
  split
  · next h =>
    have hbehind := (yields_nextStatement column hcs).bind fun _ => Word.yields_after? word
    exact hr.body_rest column (hbehind _ h)
  · exact .some hcs

theorem elifClauses (column fuel : Nat) (hcs : cs <:+ S) : Yields (· <:+ S) (r.elifClauses column fuel cs) := by
  induction fuel generalizing cs with
  | zero => exact .some hcs
  | succ fuel ih =>
    rw [Rules.elifClauses]
    split
    · next h =>
      have hbehind := (yields_nextStatement column hcs).bind fun _ => Word.yields_after? "elif"
      exact (hr.conditionBody column (hbehind _ h)).bind fun _ => ih
    · exact .some hcs

theorem ifStatement (column : Nat) (hcs : cs <:+ S) : Yields (· <:+ S) (r.ifStatement column cs) :=
  (hr.conditionBody column hcs).bind fun _ h => (hr.elifClauses column _ h).bind fun _ => hr.optionalClause column "else"

theorem whileStatement (column : Nat) (hcs : cs <:+ S) : Yields (· <:+ S) (r.whileStatement column cs) :=
  (hr.conditionBody column hcs).bind fun _ => hr.optionalClause column "else"

theorem forStatement (column : Nat) (hcs : cs <:+ S) : Yields (· <:+ S) (r.forStatement column cs) := by
  unfold Rules.forStatement
  generalize (Place.lineAt column).within = p
  refine (p.yields_operand? hcs).bind fun start hstart => (hr.targets p hstart).bind fun stop hstop => ?_
  refine (p.yields_word? "in" hstop).bind fun behind hbehind => (p.yields_operand? hbehind).bind fun start hstart => ?_
  refine (hr.expressions p hstart).bind fun ⟨_, stop⟩ hstop => ?_
  exact (hr.body column hstop.2).bind fun _ h => hr.optionalClause column "else" h.rest

theorem withStatement (column : Nat) (hcs : cs <:+ S) : Yields (· <:+ S) (r.withStatement column cs) :=
  ((Place.lineAt column).within.yields_operand? hcs).bind fun _ hstart =>
    (hr.expressions _ hstart).bind fun _ h => hr.body_rest column h.2

/-! ### Exceptions -/

omit hr in
theorem except? (hcs : cs <:+ S) : Yields (·.2 <:+ S) (except? cs) :=
  (Word.yields_after? "except" hcs).map fun behind hbehind => by
    split
    · exact suffix_of_cons hbehind
    · exact hbehind

theorem exceptClause (column : Nat) (hcs : cs <:+ S) : Yields (· <:+ S) (r.exceptClause column cs) := by
  unfold Rules.exceptClause
  generalize (Place.lineAt column).within = p
  have hread : ∀ {cs}, cs <:+ S → Yields (·.2 <:+ S) ((p.operand? cs).bind (r.expression p Level.lowest)) := fun hcs =>
    (p.yields_operand? hcs).bind fun _ => hr.expression_rest p Level.lowest
  dsimp only
  split
  · next h =>
    have hstop := hread hcs _ h
    split
    · next h =>
      have hbehind := ((p.yields_after? ',' hstop).or (p.yields_word? "as" hstop)) _ h
      exact (hread hbehind).snd.bind fun _ => hr.body_rest column
    · exact hr.body_rest column hstop
  · exact hr.body_rest column hcs

theorem groupClause (column : Nat) (hcs : cs <:+ S) : Yields (· <:+ S) (r.groupClause column cs) :=
  ((Place.lineAt column).within.yields_operand? hcs).bind fun _ hstart =>
    (hr.expression_rest _ _ hstart).bind fun _ => hr.body_rest column

theorem exceptClauses (column : Nat) (group : Bool) (fuel : Nat) (hcs : cs <:+ S) :
    Yields (· <:+ S) (r.exceptClauses column group fuel cs) := by
  induction fuel generalizing cs with
  | zero => exact .some hcs
  | succ fuel ih =>
    rw [Rules.exceptClauses]
    split
    · next h =>
      have hbehind := ((yields_nextStatement column hcs).bind fun _ => Word.yields_after? "except") _ h
      split
      · split
        · exact (hr.groupClause column (suffix_of_cons hbehind)).bind fun _ => ih
        · exact .some hcs
      · exact (hr.exceptClause column hbehind).bind fun _ => ih
    · exact .some hcs

theorem tryStatement (column : Nat) (hcs : cs <:+ S) : Yields (· <:+ S) (r.tryStatement column cs) := by
  refine (hr.body column hcs).bind fun ⟨_, stop⟩ hstop => ?_
  dsimp only
  split
  · next start hmark =>
    have hstart : start <:+ S := Layout.suffix_of_read rfl (by rw [hmark]; rfl) hstop.rest
    split
    · next group behind h =>
      have hbehind := except? hstart _ h
      have hend : ∀ stop, stop <:+ S → Yields (· <:+ S) ((r.exceptClauses column group stop.length stop).bind fun stop =>
          (r.optionalClause column "else" stop).bind (r.optionalClause column "finally")) := fun _ h =>
        (hr.exceptClauses column group _ h).bind fun _ h => (hr.optionalClause column "else" h).bind fun _ =>
          hr.optionalClause column "finally"
      exact .ite ((hr.groupClause column hbehind).bind hend) ((hr.exceptClause column hbehind).bind hend)
    · exact (Word.yields_after? "finally" hstart).bind fun _ => hr.body_rest column
  · exact .none

/-! ### Matches -/

theorem caseClause (column : Nat) (hcs : cs <:+ S) : Yields (· <:+ S) (r.caseClause column cs) := by
  unfold Rules.caseClause
  generalize (Place.lineAt column).within = p
  refine (p.yields_operand? hcs).bind fun start hstart => ?_
  refine (Place.yields_list?_rest p (f := fun cs => (r.pattern p cs).map ((), ·))
    (fun _ hcs => (hr.pattern p hcs).map fun _ h => h) hstart).bind fun ⟨_, stop⟩ hstop => ?_
  have hstop := p.optionalComma_suffix hstop
  dsimp only
  split
  · next h =>
    refine (Yields.snd ?_).bind fun _ => hr.body_rest column
    exact (p.yields_operand? (p.yields_word? "if" hstop _ h)).bind fun _ => hr.expression_rest p Level.lowest
  · exact hr.body_rest column hstop

theorem casesFrom (column fuel : Nat) (hcs : cs <:+ S) : Yields (· <:+ S) (r.casesFrom column fuel cs) := by
  induction fuel generalizing cs with
  | zero => exact .none
  | succ fuel ih =>
    rw [Rules.casesFrom]
    split
    · next hmark =>
      have hstart := Layout.suffix_of_read rfl (by rw [hmark]; rfl) hcs
      exact (Word.yields_after? "case" hstart).bind fun _ h => (hr.caseClause column h).bind fun _ => ih
    · next hmark => exact .some (Layout.suffix_of_read rfl (by rw [hmark]; rfl) hcs)
    · exact .none

theorem matchStatement (column : Nat) {behind : List Char} (hbehind : behind <:+ S) (hcs : cs <:+ S) :
    Yields (PartAt S Item.exprs) (r.matchStatement column cs behind) := by
  refine ((Place.lineAt column).yields_operand? hbehind).bind fun start hstart => .ite .none ?_
  refine (hr.expressions _ hstart).bind fun ⟨_, stop⟩ hstop => ?_
  refine (Place.yields_after? _ ':' hstop.2).bind fun behind hbehind => ?_
  dsimp only
  split
  · next hmark => exact other (hr.casesFrom _ _ (Layout.suffix_of_read rfl (by rw [hmark]; rfl) hbehind))
  · next hmark =>
    refine .some (((hr.closedExpression _ hcs).filter _).getD ⟨List.forall_mem_nil _, ?_⟩)
    exact Layout.suffix_of_read rfl (by rw [hmark]; rfl) hbehind
  · exact .none

/-! ### Definitions -/

theorem skipTypeParameters (hcs : cs <:+ S) : Yields (· <:+ S) (r.skipTypeParameters p cs) := by
  unfold Rules.skipTypeParameters
  split
  · next h => exact Yields.snd ((hr.typeParameters p (p.yields_after? '[' hcs _ h)).mono fun _ h => h.rest)
  · exact .some hcs

theorem returnType (hcs : cs <:+ S) : Yields (PartAt S Option.toList) (r.returnType p cs) := by
  unfold Rules.returnType
  split
  · next h =>
    have hbehind := suffix_of_cons (suffix_of_cons (p.yields_next? hcs _ h))
    refine (p.yields_operand? hbehind).bind fun _ hstart => (hr.unconstrained p hstart).bind fun _ h => ?_
    exact .some ⟨List.forall_mem_singleton.2 h.sourced, h.rest⟩
  · exact .some ⟨List.forall_mem_nil _, hcs⟩

omit hr in
/-- A statement of a body keeps no more than its piece. -/
theorem exprs_statementOf {piece : Piece} (h : ∀ e ∈ piece.item.exprs, e.Sourced S) :
    ∀ e ∈ (statementOf piece).exprs, e.Sourced S := by
  unfold statementOf
  split
  · next hitem => simpa [hitem, Item.exprs, Statement.exprs] using h
  · next hitem => simpa [hitem, Item.exprs, Statement.exprs] using h
  · exact List.forall_mem_nil _

theorem functionDefinition (column : Nat) {decorators : List Expr} (hdecorators : ∀ e ∈ decorators, e.Sourced S)
    (hcs : cs <:+ S) : Yields (PartAt S Function.exprs) (r.functionDefinition column decorators cs) := by
  unfold Rules.functionDefinition
  generalize (Place.lineAt column).within = p
  refine (p.yields_name? hcs).bind fun ⟨name, stop⟩ hstop => (hr.skipTypeParameters p hstop).bind fun stop hstop => ?_
  refine (p.yields_after? '(' hstop).bind fun behind hbehind => ?_
  refine (hr.parameters p hbehind).bind fun ⟨parameters, stop⟩ hparameters => ?_
  refine (hr.returnType p hparameters.rest).bind fun ⟨returns, stop⟩ hreturns => ?_
  refine (p.yields_after? ':' hreturns.rest).bind fun behind hbehind => .ite .none ?_
  refine (hr.suite column hbehind).bind fun ⟨pieces, stop⟩ hpieces => .some ⟨?_, hpieces.rest⟩
  refine List.forall_mem_append.2 ⟨List.forall_mem_append.2 ⟨List.forall_mem_append.2 ⟨hdecorators,
    hparameters.sourced⟩, hreturns.sourced⟩, ?_⟩
  simp only [List.forall_mem_flatMap, List.forall_mem_map]
  exact fun piece hpiece => exprs_statementOf (List.forall_mem_flatMap.1 hpieces.sourced piece hpiece)

/-- The bases of a class are arguments, and its fields are typed names in its body. -/
theorem classBody (column : Nat) (name : String) (start : List Char) {arguments : List Argument}
    (hx : PartAt S (fun as => as.flatMap Argument.exprs) (arguments, cs)) : Yields (PartAt S Class.exprs) (do
      if arguments.any fun | .generator => true | _ => false then .none
      let (pieces, stop) ← r.body column cs
      some (⟨name, arguments.filterMap baseOf, pieces.filterMap fieldOf, between start stop, 0⟩, stop)) := by
  refine .ite .none ((hr.body column hx.rest).bind fun ⟨pieces, stop⟩ hpieces => .some ⟨?_, hpieces.rest⟩)
  refine List.forall_mem_append.2 ⟨fun e he => ?_, ?_⟩
  · obtain ⟨a, ha, he⟩ := List.mem_filterMap.1 he
    cases a <;> cases he
    all_goals exact List.forall_mem_flatMap.1 hx.sourced _ ha _ List.mem_cons_self
  · simp only [List.forall_mem_map]
    intro field hfield
    obtain ⟨piece, hpiece, hfield⟩ := List.mem_filterMap.1 hfield
    have hitem := List.forall_mem_flatMap.1 hpieces.sourced piece hpiece
    unfold fieldOf at hfield
    split at hfield
    · next hkind =>
      cases hfield
      exact hitem _ (by simp [hkind, Item.exprs])
    · cases hfield

theorem classDefinition (column : Nat) (start : List Char) (hcs : cs <:+ S) :
    Yields (PartAt S Class.exprs) (r.classDefinition column start cs) := by
  unfold Rules.classDefinition
  generalize (Place.lineAt column).within = p
  refine (p.yields_name? hcs).bind fun ⟨name, stop⟩ hstop => (hr.skipTypeParameters p hstop).bind fun stop hstop => ?_
  dsimp only
  split
  · next h => exact (hr.arguments p (p.yields_after? '(' hstop _ h)).bind fun _ => hr.classBody column name start
  · have hnone : PartAt S (fun as => as.flatMap Argument.exprs) (([] : List Argument), stop) := ⟨List.forall_mem_nil _, hstop⟩
    exact hr.classBody column name start hnone

theorem definition (column : Nat) {decorators : List Expr} (hdecorators : ∀ e ∈ decorators, e.Sourced S)
    (start : List Char) (hcs : cs <:+ S) : Yields (PartAt S Item.exprs) (r.definition column decorators start cs) := by
  unfold Rules.definition
  split
  · next h => exact (hr.classDefinition column start (Word.yields_after? "class" hcs _ h)).map fun _ h => ⟨h.sourced, h.rest⟩
  · have hasync := ((Word.yields_after? "async" hcs).bind fun _ => (Place.lineAt column).within.yields_next?).getD hcs
    refine (Word.yields_after? "def" hasync).bind fun behind hbehind => ?_
    exact (hr.functionDefinition column hdecorators hbehind).map fun _ h => ⟨h.sourced, h.rest⟩

theorem decorated (column : Nat) (start : List Char) (fuel : Nat) {decorators : List Expr}
    (hdecorators : ∀ e ∈ decorators, e.Sourced S) (hcs : cs <:+ S) :
    Yields (PartAt S Item.exprs) (r.decorated column start fuel decorators cs) := by
  induction fuel generalizing decorators cs with
  | zero => exact .none
  | succ fuel ih =>
    unfold Rules.decorated
    split
    · refine ((Place.lineAt column).within.yields_token? true (suffix_of_cons hcs)).bind fun ⟨joins, first⟩ hfirst => ?_
      refine (hr.expression _ _ hfirst).bind fun ⟨o, stop⟩ ho => ?_
      refine (Place.yields_ended? _ ho.rest).bind fun rest hrest => (Place.yields_next? _ hrest).bind fun next hnext => ?_
      refine ih (List.forall_mem_append.2 ⟨hdecorators, List.forall_mem_singleton.2 ?_⟩) hnext
      cases joins with
      | nil => exact ho.expr
      | cons j joins => exact Expr.sourced_ofJoin S j
    · exact hr.definition column hdecorators start hcs

/-! ## Blocks -/

theorem compound? (column : Nat) (hcs : cs <:+ S) :
    Yields (Yields (PartAt S Item.exprs)) (r.compound? column cs) := by
  have hother : ∀ {o : Option (List Char)}, Yields (· <:+ S) o →
      Yields (Yields (PartAt S Item.exprs)) (some (o.map (.other, ·))) := fun h => .some (other h)
  have hdefinition : Yields (Yields (PartAt S Item.exprs)) (some (r.definition column [] cs cs)) :=
    .some (hr.definition column (List.forall_mem_nil _) cs hcs)
  unfold Rules.compound?
  dsimp only
  refine .ite (.some (hr.decorated column cs _ (List.forall_mem_nil _) hcs)) ?_
  split
  · exact .none
  · next h =>
    have hbehind := Word.yields_read? hcs _ h
    refine .ite hdefinition (.ite (hother (hr.ifStatement column hbehind)) (.ite (hother (hr.forStatement column hbehind)) ?_))
    refine .ite (hother (hr.whileStatement column hbehind)) (.ite (hother (hr.tryStatement column hbehind)) ?_)
    refine .ite (hother (hr.withStatement column hbehind)) (.ite ?_ (.ite ?_ .none))
    · exact (hr.matchStatement column hbehind hcs).map fun x h => .some h
    · split
      · next h =>
        have hnext := (Place.lineAt column).yields_next? hbehind _ h
        split
        · next h =>
          have hbehind := Word.yields_read? hnext _ h
          exact .ite hdefinition (.ite (hother (hr.forStatement column hbehind))
            (.ite (hother (hr.withStatement column hbehind)) .none))
        · exact .none
      · exact .none

theorem statement (column : Nat) (hcs : cs <:+ S) :
    Yields (PartAt S fun pieces : List Piece => pieces.flatMap (·.item.exprs)) (r.statement column cs) := by
  unfold Rules.statement
  split
  · next h =>
    refine (hr.compound? column hcs _ h).map fun ⟨item, stop⟩ hitem => ⟨?_, hitem.rest⟩
    simpa using hitem.sourced
  · exact hr.lineFrom column _ hcs

theorem blockFrom (column fuel : Nat) (hcs : cs <:+ S) :
    Yields (PartAt S fun pieces : List Piece => pieces.flatMap (·.item.exprs)) (r.blockFrom column fuel cs) := by
  induction fuel generalizing cs with
  | zero => exact .none
  | succ fuel ih =>
    rw [Rules.blockFrom]
    split
    · next hgap =>
      refine (hr.statement column (Layout.suffix_of_read hgap rfl hcs)).bind fun ⟨first, rest⟩ hfirst => ?_
      refine (ih hfirst.rest).bind fun ⟨more, rest⟩ hmore => .some ⟨?_, hmore.rest⟩
      rw [List.flatMap_append, List.flatMap_append, exprs_joinPiece, List.nil_append]
      exact List.forall_mem_append.2 ⟨hfirst.sourced, hmore.sourced⟩
    · next hgap =>
      refine .some ⟨?_, Layout.suffix_of_read hgap rfl hcs⟩
      rw [exprs_joinPiece]
      exact List.forall_mem_nil _
    · exact .none

theorem suiteRule (column : Nat) (hcs : cs <:+ S) :
    Yields (PartAt S fun pieces : List Piece => pieces.flatMap (·.item.exprs)) (r.suiteRule column cs) := by
  unfold Rules.suiteRule
  split
  · next hmark => exact hr.lineFrom column _ (Layout.suffix_of_read rfl (by rw [hmark]; rfl) hcs)
  · next hmark =>
    have hrest := Layout.suffix_of_read rfl (by rw [hmark]; rfl) hcs
    exact (yields_nextStatement _ hrest).bind fun _ h => hr.blockFrom _ _ h
  · next hmark => exact .some ⟨List.forall_mem_nil _, Layout.suffix_of_read rfl (by rw [hmark]; rfl) hcs⟩
  · exact .none

end Faithful
end Rules
end PluginTools
