/-
The rules for operands keep to the source: parentheses have the value of what they hold, a minus sign turns the value
of a literal around, and all other operands are no whole numbers but hold some.
-/
import PluginTools.Proofs.Constants
import PluginTools.Proofs.Loops
import PluginTools.Source.Operator

namespace PluginTools

open Layout (Skips)
open Reading (Yields)

namespace Rules

/-- The expression that an argument is kept with. -/
def Argument.exprs : Argument → List Expr
  | .positional e | .keyword _ e | .splat e => [e]
  | .generator => []

section

variable {S cs : List Char}

theorem sourced_ofJoins (joins : List String) : ∀ e ∈ joins.map Expr.ofJoin, e.Sourced S := by
  simp only [List.forall_mem_map]
  exact fun text _ => Expr.sourced_ofJoin S text

/-! ## Values of items -/

theorem sourced_firstValue {o : Operand} (h : o.Sourced S) : (firstValue o).Sourced S := by
  unfold firstValue
  split
  · exact Expr.sourced_verbatim (by decide) _
  · exact h _ List.mem_cons_self

theorem sourced_laterValue {o : Operand} (h : o.Sourced S) : (laterValue o).Sourced S := by
  unfold laterValue
  split
  · exact h _ List.mem_cons_self
  · exact sourced_firstValue h

theorem sourced_soleValue {o : Operand} (h : o.Sourced S) : (soleValue o).Sourced S := by
  unfold soleValue
  split
  · next hform => exact h _ (by simp [Operand.values, hform])
  · exact sourced_laterValue h

theorem sourced_values {first : Operand} {rest : Rest} (hfirst : first.Sourced S) (hrest : ∀ o ∈ rest.items, o.Sourced S) :
    ∀ e ∈ values first rest, e.Sourced S := by
  refine List.forall_mem_cons.2 ⟨?_, List.forall_mem_append.2 ⟨?_, sourced_ofJoins _⟩⟩
  · split
    · exact sourced_firstValue hfirst
    · exact sourced_soleValue hfirst
  · simp only [List.forall_mem_map]
    exact fun o ho => sourced_laterValue (hrest o ho)

theorem values_formOf (e : Expr) (os : List Operand) : (⟨e, formOf os⟩ : Operand).values = [e] := by
  unfold formOf
  split <;> rfl

/-! ## Parentheses -/

section

variable {behind start rest stop : List Char} {o : Operand} {before after : List String}

/-- Without joins, the parentheses have the value of what they hold. -/
theorem readAt_hull {e : Expr} (joins : List String) (hbefore : Skips behind start) (he : ReadAt S start rest e)
    (hafter : Skips rest (')' :: stop)) :
    ReadAt S ('(' :: behind) stop (if joins.isEmpty then e
      else .verbatim "parenthesized_expression" (between ('(' :: behind) stop)) := by
  split
  · exact ⟨he.sourced, fun i hi => .parentheses hbefore (he.signed i hi) hafter⟩
  · exact .of_ne (Expr.sourced_verbatim (by decide) _) (by rintro _ ⟨⟩)

theorem readAt_tupled {e : Expr} (he : e.Sourced S) :
    ReadAt S start stop (.tuple (before.map Expr.ofJoin ++ e :: after.map Expr.ofJoin)) := by
  refine .of_ne (Expr.sourced_tuple ?_) (by rintro _ ⟨⟩)
  exact List.forall_mem_append.2 ⟨sourced_ofJoins _, List.forall_mem_cons.2 ⟨he, sourced_ofJoins _⟩⟩

/-- One operand in parentheses, with what stands around it. -/
theorem operandAt_wrapped (p : Place) (hbefore : Skips behind start) (ho : OperandAt S start (o, rest))
    (hafter : Skips rest (')' :: stop)) :
    OperandAt S ('(' :: behind) (wrapped p ('(' :: behind) o before after stop, stop) := by
  have hstop : stop <:+ S := suffix_of_cons (hafter.suffix.trans ho.rest)
  have hhull : ∀ e ∈ o.values, ReadAt S ('(' :: behind) stop (if (before ++ after).isEmpty then e
      else .verbatim "parenthesized_expression" (between ('(' :: behind) stop)) := fun e he =>
    readAt_hull _ hbefore (ho.values e he) hafter
  -- at the end of a line, and where it is no operand, a spread is the item of a tuple
  have hchoose : ∀ (operand : Option Expr) (item : Expr), (∀ e ∈ operand, e ∈ o.values) → item.Sourced S →
      ReadAt S ('(' :: behind) stop (if p.endsLine stop then .tuple (before.map Expr.ofJoin ++ item :: after.map Expr.ofJoin)
        else (operand.map fun e => if (before ++ after).isEmpty then e
          else .verbatim "parenthesized_expression" (between ('(' :: behind) stop)).getD
            (.tuple (before.map Expr.ofJoin ++ item :: after.map Expr.ofJoin))) := by
    intro operand item hoperand hitem
    split
    · exact readAt_tupled hitem
    · cases operand with
      | none => exact readAt_tupled hitem
      | some e => exact hhull e (hoperand e rfl)
  unfold Rules.wrapped
  dsimp only
  split
  · next alone assignable hform =>
    have halone : ∀ e ∈ alone, e ∈ o.values := by
      rintro e rfl
      simp [Operand.values, hform]
    refine ⟨hstop, fun e he => ?_⟩
    rcases List.mem_cons.1 he with rfl | he
    · exact hchoose alone o.expr halone ho.expr
    · exact List.mem_singleton.1 he ▸ hhull o.expr List.mem_cons_self
  · next inner spread isOperand assignable hform =>
    have hspread : spread ∈ o.values := by simp [Operand.values, hform]
    refine ⟨hstop, fun e he => ?_⟩
    rcases List.mem_cons.1 he with rfl | he
    · refine hchoose _ _ (fun e he => ?_) (Expr.sourced_verbatim (by decide) _)
      split at he <;> cases he
      exact List.mem_cons_self
    · exact List.mem_singleton.1 he ▸ hhull spread hspread
  · exact .of_readAt hstop (hhull o.expr List.mem_cons_self) (values_formOf _ _)

end

end

namespace Faithful

variable {S cs : List Char} {r : Rules} (hr : r.Faithful S) (p : Place)

include hr

/-! ## Comprehensions -/

theorem iterable (hcs : cs <:+ S) : Yields (OperandAt S cs) (r.iterable p cs) :=
  .ite (hr.lambda? p (fun _ => hr.expression_rest p _) hcs) (hr.expression p _ hcs)

theorem forClause (hcs : cs <:+ S) : Yields (· <:+ S) (r.forClause p cs) := by
  have hasync := ((Word.yields_after? "async" hcs).bind fun _ => p.within.yields_next?).getD hcs
  refine (Word.yields_after? "for" hasync).bind fun rest hrest => ?_
  refine (p.within.yields_operand? hrest).bind fun start hstart => ?_
  refine (hr.targets p.within hstart).bind fun rest hrest => ?_
  refine (p.within.yields_word? "in" hrest).bind fun rest hrest => ?_
  refine (p.within.yields_operand? hrest).bind fun start hstart => ?_
  refine (hr.iterable p hstart).bind fun ⟨_, rest⟩ hfirst => .some (p.optionalComma_suffix ?_)
  exact Place.items_suffix p p (fun cs hcs => .ite .none ((hr.iterable p hcs).mono fun _ h => h.rest)) hfirst.rest

theorem clause (hcs : cs <:+ S) : Yields (· <:+ S) (r.clause p cs) := by
  refine (p.yields_next? hcs).bind fun cs hcs => ?_
  dsimp only
  split
  · next h =>
    refine (p.within.yields_operand? (Word.yields_after? "if" hcs _ h)).bind fun _ hstart => ?_
    exact (hr.expression_rest p _ hstart).bind fun _ h => .some h
  · exact hr.forClause p hcs

theorem clauses (close : Char) (hcs : cs <:+ S) : Yields (· <:+ S) (r.clauses p close cs) := by
  refine (p.comprehended.yields_next? hcs).bind fun cs hcs => ?_
  refine (hr.forClause p.comprehended hcs).bind fun rest hrest => ?_
  exact p.comprehended.yields_after? close (Reading.repeated_induct (I := fun _ cs => cs <:+ S)
    (fun _ _ h => (hr.clause p.comprehended h).map fun _ h => h) hrest)

/-! ## Items -/

theorem alone? {stop : List Char} (hstop : stop <:+ S) (hcs : cs <:+ S) :
    Yields (fun o => OperandAt S cs (o, stop)) (r.alone? p cs stop) := by
  unfold Rules.alone?
  split
  · next o rest h =>
    have ho := (Yields.ite .none (hr.expression p _ hcs)) _ h
    split
    · next hlength =>
      have heq : rest = stop := (List.suffix_of_suffix_length_le ho.rest hstop hlength.le).eq_of_length hlength
      exact .some (heq ▸ ho)
    · exact .none
  · exact .none

theorem starItem (hcs : cs <:+ S) : Yields (OperandAt S cs) (r.starItem p cs) := by
  unfold Rules.starItem
  dsimp only
  split
  · next behind =>
    refine (p.item.within.yields_operand? (suffix_of_cons hcs)).bind fun start hstart => ?_
    refine (hr.expression p.item _ hstart).bind fun ⟨_, stop⟩ hread => .some ⟨hread.rest, ?_⟩
    have halone := hr.alone? p.item hread.rest hcs
    intro e he
    rcases List.mem_cons.1 he with rfl | he
    · exact .of_ne (Expr.sourced_verbatim (by decide) _) (by rintro _ ⟨⟩)
    · cases hsome : r.alone? p.item ('*' :: behind) stop with
      | none =>
        rw [hsome] at he
        cases he
      | some o =>
        rw [hsome] at he
        exact List.mem_singleton.1 he ▸ (halone o hsome).values _ List.mem_cons_self
  · exact hr.expression p.item _ hcs

theorem item (hcs : cs <:+ S) : Yields (OperandAt S cs) (r.item p cs) := by
  unfold Rules.item
  split
  · next h => exact .some (hr.yielded? p hcs _ h)
  · exact hr.starItem p hcs

theorem moreItems (close : Char) (hcs : cs <:+ S) :
    Yields (fun x => (∀ o ∈ x.1.items, o.Sourced S) ∧ x.2 <:+ S ∧ (x.1.comma = false → Skips cs (close :: x.2)))
      (r.moreItems p close cs) := by
  have hmore := Place.elements_induct (P := Operand.Sourced S) p.later p.later cs.length
    (j := fun j => [Operand.ofJoin j]) (fun j o ho => List.mem_singleton.1 ho ▸ by
      rintro e (_ | ⟨_, ⟨⟩⟩)
      exact Expr.sourced_ofJoin S j)
    (fun _ hcs => (hr.item p.later hcs).mono fun _ h => ⟨h.sourced, h.rest⟩) hcs
  intro x hx
  obtain ⟨⟨joins, stop⟩, hclose, rfl⟩ := Option.map_eq_some_iff.1 hx
  refine ⟨hmore.1, p.later.yields_close? close hmore.2 _ hclose, fun hcomma => ?_⟩
  -- without a comma there are no items, and the bracket closes right behind the first one
  have hmark : p.later.mark? ',' cs = .none := by
    simpa [Place.hasComma, Place.after?] using hcomma
  rw [Place.elements_of_mark?_eq_none hmark, Place.close?, hmark] at hclose
  obtain ⟨⟨joins, stop⟩, hclose, heq⟩ := Option.map_eq_some_iff.1 hclose
  cases heq
  exact Place.skips_of_mark? hclose

/-! ## Parentheses, lists and braces -/

theorem parenthesized {behind : List Char} (hcs : '(' :: behind <:+ S) :
    Yields (OperandAt S ('(' :: behind)) (r.parenthesized p ('(' :: behind)) := by
  refine Yields.bind (P := fun x => Skips behind x.2) (fun _ h => Place.skips_of_token? h) fun ⟨before, start⟩ hskips => ?_
  have hstart := hskips.suffix.trans (suffix_of_cons hcs)
  dsimp only
  split
  · exact .some (.of_readAt (suffix_of_cons hstart) (.of_ne (Expr.sourced_tuple (sourced_ofJoins _)) (by rintro _ ⟨⟩)) rfl)
  · refine (hr.item _ hstart).bind fun ⟨first, rest⟩ hfirst => ?_
    refine .ite ?_ ?_
    · exact (hr.clauses _ ')' hfirst.rest).bind fun _ h => .some (operandAt_verbatim (by decide) h)
    · refine (hr.moreItems p.bracketed ')' hfirst.rest).bind fun ⟨more, stop⟩ ⟨hmore, hstop, hclose⟩ => ?_
      dsimp only
      split
      · refine .some (.of_readAt hstop (.of_ne (Expr.sourced_tuple ?_) (by rintro _ ⟨⟩)) (values_formOf _ _))
        exact List.forall_mem_append.2 ⟨sourced_ofJoins _, sourced_values hfirst.sourced hmore⟩
      · next hcomma =>
        exact .ite .none (.some (operandAt_wrapped p hskips hfirst (hclose (by simpa using hcomma))))

theorem bracketed (hcs : cs <:+ S) : Yields (OperandAt S cs) (r.bracketed p cs) := by
  refine (p.bracketed.yields_token? true ((List.drop_suffix 1 cs).trans hcs)).bind fun ⟨before, start⟩ hstart => ?_
  dsimp only
  split
  · exact .some (.of_readAt (suffix_of_cons hstart) (.of_ne (Expr.sourced_list (sourced_ofJoins _)) (by rintro _ ⟨⟩)) rfl)
  · refine (hr.item _ hstart).bind fun ⟨first, rest⟩ hfirst => .ite ?_ ?_
    · exact (hr.clauses _ ']' hfirst.rest).bind fun _ h => .some (operandAt_verbatim (by decide) h)
    · refine (hr.moreItems p.bracketed ']' hfirst.rest).bind fun ⟨more, stop⟩ ⟨hmore, hstop, _⟩ => ?_
      refine .some (.of_readAt hstop (.of_ne (Expr.sourced_list ?_) (by rintro _ ⟨⟩)) (values_formOf _ _))
      exact List.forall_mem_append.2 ⟨sourced_ofJoins _, sourced_values hfirst.sourced hmore⟩

theorem pairValue (hcs : cs <:+ S) : Yields (· <:+ S) (r.pairValue p cs) :=
  (p.within.yields_operand? hcs).bind fun _ hstart => (hr.expression_rest p _ hstart).bind fun _ h => .some h

theorem entry (hcs : cs <:+ S) : Yields (·.2 <:+ S) (r.entry p cs) := by
  unfold Rules.entry
  split
  · refine (p.within.yields_operand? (suffix_of_cons (suffix_of_cons hcs))).bind fun _ hstart => ?_
    exact (hr.expression_rest p _ hstart).bind fun _ h => .some h
  · refine (hr.expression_rest p.within _ hcs).bind fun _ hrest => ?_
    exact (p.within.yields_after? ':' hrest).bind fun _ hbehind => (hr.pairValue p hbehind).bind fun _ h => .some h

theorem moreEntries (hcs : cs <:+ S) : Yields (· <:+ S) (r.moreEntries p cs) :=
  p.yields_after? '\x7d' (p.optionalComma_suffix (Place.items_suffix p p (fun _ => hr.entry p) hcs))

theorem braced (hcs : cs <:+ S) : Yields (OperandAt S cs) (r.braced p cs) := by
  refine (p.bracketed.yields_operand? ((List.drop_suffix 1 cs).trans hcs)).bind fun start hstart => ?_
  dsimp only
  split
  · exact .some (operandAt_verbatim (by decide) (suffix_of_cons hstart))
  · refine (p.bracketed.yields_after? '\x7d' (suffix_of_cons hstart)).bind fun _ h => ?_
    exact .some (operandAt_verbatim (by decide) h)
  · refine (hr.entry p.bracketed hstart).bind fun _ hrest => ?_
    exact (hr.moreEntries p.bracketed hrest).bind fun _ h => .some (operandAt_verbatim (by decide) h)
  · refine (hr.item _ hstart).bind fun ⟨first, rest⟩ hfirst => ?_
    dsimp only
    split
    · next h =>
      have hbehind := (Yields.ite (p.bracketed.yields_after? ':' hfirst.rest) .none) _ h
      refine (hr.pairValue _ hbehind).bind fun rest hrest => .ite ?_ ?_
      · exact (hr.clauses _ '\x7d' hrest).bind fun _ h => .some (operandAt_verbatim (by decide) h)
      · exact (hr.moreEntries _ hrest).bind fun _ h => .some (operandAt_verbatim (by decide) h)
    · refine .ite ?_ ?_
      · exact (hr.clauses _ '\x7d' hfirst.rest).bind fun _ h => .some (operandAt_verbatim (by decide) h)
      · exact (hr.moreItems _ '\x7d' hfirst.rest).bind fun _ h => .some (operandAt_verbatim (by decide) h.2.1)

/-! ## Subscripts -/

theorem optionalExpression_suffix (hcs : cs <:+ S) : r.optionalExpression p cs <:+ S := by
  unfold Rules.optionalExpression
  split
  · next h =>
    have hread := (p.yields_operand? hcs).bind fun _ => hr.expression_rest p Level.lowest
    exact hread _ h
  · exact hcs

/-- A slice goes on behind its colon, and perhaps behind another one. -/
theorem slice_suffix (hcs : cs <:+ S) : (match p.after? ':' (r.optionalExpression p cs) with
    | some rest => r.optionalExpression p rest
    | .none => r.optionalExpression p cs) <:+ S := by
  have hrest := hr.optionalExpression_suffix p hcs
  split
  · next h => exact hr.optionalExpression_suffix p (p.yields_after? ':' hrest _ h)
  · exact hrest

theorem index (hcs : cs <:+ S) : Yields (TypeAt S) (r.index p cs) := by
  unfold Rules.index
  dsimp only
  split
  · exact .some ⟨Expr.sourced_verbatim (by decide) _, hr.slice_suffix p (suffix_of_cons hcs)⟩
  · refine (hr.expression p _ hcs).bind fun ⟨o, rest⟩ ho => ?_
    dsimp only
    split
    · next h => exact .some ⟨Expr.sourced_verbatim (by decide) _, hr.slice_suffix p (p.yields_after? ':' ho.rest _ h)⟩
    · exact .some ho.typeAt

omit hr in
theorem sourced_sliceOf {es : List Expr} (h : ∀ e ∈ es, e.Sourced S) : (sliceOf es).Sourced S := by
  unfold sliceOf
  split
  · exact h _ List.mem_cons_self
  · exact Expr.sourced_tuple h

theorem subscript (hcs : cs <:+ S) : Yields (TypeAt S) (r.subscript p cs) := by
  refine (p.bracketed.within.yields_operand? hcs).bind fun start hstart => ?_
  refine (Place.yields_list? (P := Expr.Sourced S) p.bracketed
    (fun _ hcs => (hr.index p.bracketed hcs).mono fun _ h => ⟨h.sourced, h.rest⟩) hstart).bind fun ⟨es, rest⟩ h => ?_
  refine (p.bracketed.yields_after? ']' (p.bracketed.optionalComma_suffix h.2)).bind fun _ hstop => ?_
  exact .some ⟨sourced_sliceOf h.1, hstop⟩

/-! ## Calls -/

theorem keywordArgument (hcs : cs <:+ S) : Yields (PartAt S Argument.exprs) (r.keywordArgument p cs) := by
  refine (Word.yields_read? hcs).bind fun ⟨w, rest⟩ hrest => .ite .none ?_
  refine (p.yields_after? '=' hrest).bind fun rest hrest => .ite .none ?_
  refine (p.within.yields_operand? hrest).bind fun start hstart => ?_
  exact (hr.expression p _ hstart).bind fun _ h => .some ⟨List.forall_mem_singleton.2 h.expr, h.rest⟩

theorem namedArgument (hcs : cs <:+ S) : Yields (PartAt S Argument.exprs) (r.namedArgument p cs) := by
  unfold Rules.namedArgument
  split
  · refine (p.within.yields_operand? (suffix_of_cons (suffix_of_cons hcs))).bind fun start hstart => ?_
    exact (hr.expression_rest p _ hstart).bind fun _ h =>
      .some ⟨List.forall_mem_singleton.2 (Expr.sourced_verbatim (by decide) _), h⟩
  · exact hr.keywordArgument p hcs

omit hr in
theorem sourced_argumentOf {o : Operand} (h : o.Sourced S) (spreads : Bool) :
    ∀ e ∈ (argumentOf spreads o).exprs, e.Sourced S := by
  have hexpr : o.expr.Sourced S := h _ List.mem_cons_self
  unfold argumentOf
  split
  · exact List.forall_mem_singleton.2 hexpr
  · next hform =>
    refine List.forall_mem_singleton.2 ?_
    split
    · exact hexpr
    · exact h _ (by simp [Operand.values, hform])
  · exact List.forall_mem_singleton.2 hexpr

theorem argument (hcs : cs <:+ S) : Yields (PartAt S Argument.exprs) (r.argument p cs) := by
  unfold Rules.argument
  split
  · next h => exact .some (hr.namedArgument p hcs _ h)
  · exact .ite .none ((hr.starItem p hcs).map fun _ h => ⟨sourced_argumentOf h.sourced false, h.rest⟩)

omit hr in
theorem exprs_ofJoins (joins : List String) : ∀ e ∈ (joins.map Argument.ofJoin).flatMap Argument.exprs, e.Sourced S := by
  simp only [List.forall_mem_flatMap, List.forall_mem_map]
  exact fun text _ => List.forall_mem_singleton.2 (Expr.sourced_ofJoin S text)

theorem moreArguments (hcs : cs <:+ S) :
    Yields (PartAt S fun as : List Argument => as.flatMap Argument.exprs) (r.moreArguments p cs) := by
  have hmore := Place.elements_induct (P := fun a : Argument => ∀ e ∈ a.exprs, e.Sourced S) p p cs.length
    (j := fun j => [Argument.ofJoin j]) (fun j a ha => List.mem_singleton.1 ha ▸
      List.forall_mem_singleton.2 (Expr.sourced_ofJoin S j))
    (fun _ hcs => (hr.argument p hcs).mono fun _ h => ⟨h.sourced, h.rest⟩) hcs
  refine (p.yields_close? ')' hmore.2).map fun ⟨joins, stop⟩ hstop => ⟨?_, hstop⟩
  simp only [List.flatMap_append, List.forall_mem_append]
  exact ⟨List.forall_mem_flatMap.2 hmore.1, exprs_ofJoins joins⟩

theorem arguments (hcs : cs <:+ S) :
    Yields (PartAt S fun as : List Argument => as.flatMap Argument.exprs) (r.arguments p cs) := by
  refine (p.bracketed.yields_token? true hcs).bind fun ⟨before, start⟩ hstart => ?_
  have hjoined : ∀ as : List Argument, (∀ e ∈ as.flatMap Argument.exprs, e.Sourced S) →
      ∀ e ∈ (before.map Argument.ofJoin ++ as).flatMap Argument.exprs, e.Sourced S := by
    intro as has
    rw [List.flatMap_append]
    exact List.forall_mem_append.2 ⟨exprs_ofJoins before, has⟩
  dsimp only
  split
  · exact .some ⟨hjoined [] (List.forall_mem_nil _), suffix_of_cons hstart⟩
  · exact (p.bracketed.yields_mark? ')' (suffix_of_cons hstart)).map fun _ h => ⟨hjoined _ (exprs_ofJoins _), h⟩
  · split
    · next h =>
      have hfirst := hr.namedArgument _ hstart _ h
      refine (hr.moreArguments _ hfirst.rest).bind fun ⟨more, stop⟩ hmore => .some ⟨hjoined _ ?_, hmore.rest⟩
      exact List.forall_mem_append.2 ⟨hfirst.sourced, hmore.sourced⟩
    · refine .ite .none ?_
      refine (hr.starItem _ hstart).bind fun ⟨first, rest⟩ hfirst => .ite ?_ ?_
      · exact (hr.clauses _ ')' hfirst.rest).bind fun _ h => .some ⟨List.forall_mem_nil _, h⟩
      · refine (hr.moreArguments _ hfirst.rest).bind fun ⟨more, stop⟩ hmore => .some ⟨hjoined _ ?_, hmore.rest⟩
        exact List.forall_mem_append.2 ⟨sourced_argumentOf hfirst.sourced _, hmore.sourced⟩

theorem call {start : List Char} {function : Expr} (hfunction : function.Sourced S) (hcs : cs <:+ S) :
    Yields (OperandAt S start) (r.call p start function cs) := by
  refine (hr.arguments p hcs).bind fun ⟨as, stop⟩ has => .ite (.some (operandAt_verbatim (by decide) has.rest)) ?_
  have harg : ∀ a ∈ as, ∀ e ∈ a.exprs, e.Sourced S := List.forall_mem_flatMap.1 has.sourced
  refine .some (.of_readAt has.rest (.of_ne (hfunction.call ?_ ?_) (by rintro _ ⟨⟩)) rfl)
  · intro e he
    obtain ⟨a, ha, he⟩ := List.mem_filterMap.1 he
    cases a <;> cases he
    exact harg _ ha _ List.mem_cons_self
  · intro k hk
    obtain ⟨a, ha, hk⟩ := List.mem_filterMap.1 hk
    cases a <;> cases hk
    exact harg _ ha _ List.mem_cons_self

end Faithful
end Rules
end PluginTools
