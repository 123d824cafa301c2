/-
The rules for expressions keep to the source. An atom that is a whole number is a literal that fits, a minus sign before
a whole number turns its value around, and what any other operator makes of its operands is no whole number.
-/
import PluginTools.Proofs.ConstantOperands

namespace PluginTools

open Layout (Skips)
open Reading (Yields)

namespace Rules

namespace Faithful

variable {S cs : List Char} {r : Rules} (hr : r.Faithful S) (p : Place)

/-! ## Atoms -/

/-- A number is found in the source where it is read. -/
theorem number {e : Expr} {stop : List Char} (hcs : cs <:+ S) (h : Numeral.read? cs = some (e, stop)) :
    OperandAt S cs (⟨e, .plain⟩, stop) := by
  obtain ⟨text, rfl, hkept⟩ := Numeral.read?_append h
  refine .of_readAt ((List.suffix_append text stop).trans hcs) ?_ rfl
  rcases hkept with ⟨base, digits, ending, hinteger, hends, rfl⟩ | ⟨-, ⟨d, rfl⟩ | rfl⟩
  · unfold Numeral.integerExpr
    split
    · next hfits =>
      obtain rfl : ending = [] := hfits.1
      exact .of_signed hcs (.literal stop hinteger hfits (hends rfl))
    · next hfits =>
      refine .of_ne ?_ (by rintro _ ⟨⟩)
      rintro _ ⟨⟩
      exact fun _ => ⟨base, digits, ending, stop, by simpa using hcs, by simpa using hinteger, hends, hfits⟩
  · exact .of_ne (Expr.sourced_literal (by rintro _ ⟨⟩)) (by rintro _ ⟨⟩)
  · exact .of_ne (Expr.sourced_verbatim (by decide) _) (by rintro _ ⟨⟩)

theorem awaited? (hcs : cs <:+ S) : Yields (· <:+ S) (awaited? p cs) := by
  refine (Word.yields_after? "await" hcs).bind fun behind hbehind => ?_
  exact (p.yields_operand? hbehind).bind fun start hstart => .ite (.some hstart) .none

theorem operandAt_ofWord {w stop : List Char} (hstop : stop <:+ S) : OperandAt S cs (ofWord w, stop) := by
  have hliteral : ∀ value : Literal, (∀ i, value ≠ .int i) → ReadAt S cs stop (.literal value) := fun value h =>
    .of_ne (Expr.sourced_literal h) (by rintro i ⟨⟩; exact h i rfl)
  unfold ofWord
  dsimp only
  split
  · exact .of_readAt hstop (hliteral _ (by rintro _ ⟨⟩)) rfl
  · split
    · exact .of_readAt hstop (hliteral _ (by rintro _ ⟨⟩)) rfl
    · split
      · exact .of_readAt hstop (hliteral _ (by rintro _ ⟨⟩)) rfl
      · exact .of_readAt hstop (.of_ne (Expr.sourced_name S _) (by rintro _ ⟨⟩)) rfl

include hr

theorem stringPart (hcs : cs <:+ S) : Yields (·.2 <:+ S) (r.stringPart p cs) :=
  (Quotation.yields_read? (fun _ => hr.interpolation p) hcs).map fun _ h => h

/-- One more string, behind blank space. -/
theorem nextString (hcs : cs <:+ S) : Yields (·.2 <:+ S) (do
    let (joins, start) ← p.token? true cs
    if !Layout.startsString start then .none
    let (s, stop) ← r.stringPart p start
    some (if joins.isEmpty then s else .none, stop)) := by
  refine (p.yields_token? true hcs).bind fun ⟨joins, start⟩ hstart => .ite .none ?_
  exact (hr.stringPart p hstart).bind fun _ h => .some h

theorem moreStrings (fuel : Nat) (hcs : cs <:+ S) : (r.moreStrings p fuel cs).2 <:+ S := by
  induction fuel generalizing cs with
  | zero => exact hcs
  | succ fuel ih =>
    rw [Rules.moreStrings]
    dsimp only
    split
    · next h => exact ih (hr.nextString p hcs _ h)
    · exact hcs

theorem strings (hcs : cs <:+ S) : Yields (OperandAt S cs) (r.strings p cs) := by
  refine (hr.stringPart p hcs).map fun ⟨first, stop⟩ hstop => ?_
  have hstop := hr.moreStrings p stop.length hstop
  dsimp only
  split
  · exact .of_readAt hstop (.of_ne (Expr.sourced_literal (by rintro _ ⟨⟩)) (by rintro _ ⟨⟩)) rfl
  · exact operandAt_verbatim (by split <;> decide) hstop

theorem atom (hcs : cs <:+ S) : Yields (OperandAt S cs) (r.atom p cs) := by
  unfold Rules.atom
  split
  · next hhead =>
    obtain ⟨behind, rfl⟩ : ∃ behind, cs = '(' :: behind := List.head?_eq_some_iff.1 hhead
    exact hr.parenthesized p hcs
  · refine .ite (hr.bracketed p hcs) (.ite (hr.braced p hcs) (.ite (hr.strings p hcs) ?_))
    split
    · next h => exact .some (number hcs h)
    · split
      · exact .some (operandAt_verbatim (by decide) (suffix_of_cons (suffix_of_cons (suffix_of_cons hcs))))
      · exact (Word.yields_read? hcs).map fun _ h => operandAt_ofWord h

/-! ## Attributes, subscripts and calls -/

variable {start : List Char}

theorem postfixStep {o : Operand} (ho : o.expr.Sourced S) (hcs : cs <:+ S) :
    Yields (OperandAt S start) (r.postfixStep p start o cs) := by
  refine (p.yields_next? hcs).bind fun next hnext => ?_
  dsimp only
  split
  · refine (p.within.yields_name? (suffix_of_cons hnext)).bind fun ⟨field, stop⟩ hstop => ?_
    exact .some (.of_readAt hstop (.of_ne (ho.attribute field) (by rintro _ ⟨⟩)) rfl)
  · refine (hr.subscript p (suffix_of_cons hnext)).bind fun ⟨index, stop⟩ hindex => ?_
    exact .some (.of_readAt hindex.rest (.of_ne (ho.subscript hindex.sourced) (by rintro _ ⟨⟩)) rfl)
  · exact hr.call p ho (suffix_of_cons hnext)
  · exact .none

theorem postfixed {o : Operand} (ho : OperandAt S start (o, cs)) :
    OperandAt S start (Reading.repeated (r.postfixStep p start) o cs) :=
  Reading.repeated_induct (I := fun o cs => OperandAt S start (o, cs)) (fun _ _ h => hr.postfixStep p h.expr h.rest) ho

theorem firstAccess (fuel : Nat) {o : Operand} (ho : OperandAt S start (o, cs)) :
    Yields (OperandAt S start) (r.firstAccess p start fuel o cs) := by
  induction fuel generalizing o cs with
  | zero => exact .none
  | succ fuel ih =>
    rw [Rules.firstAccess]
    exact .ite (.some ho) ((hr.postfixStep p ho.expr ho.rest).bind fun _ => ih)

omit hr in
theorem operandAt_splat {text : String} {form : Form} {stop : List Char} (hstop : stop <:+ S)
    (hform : (⟨.verbatim "list_splat" text, form⟩ : Operand).values = [.verbatim "list_splat" text]) :
    OperandAt S cs (⟨.verbatim "list_splat" text, form⟩, stop) :=
  .of_readAt hstop (.of_ne (Expr.sourced_verbatim (by decide) _) (by rintro _ ⟨⟩)) hform

theorem splat (fuel : Nat) (hcs : cs <:+ S) : Yields (OperandAt S cs) (r.splat p fuel cs) := by
  induction fuel generalizing cs with
  | zero => exact .none
  | succ fuel ih =>
    rw [Rules.splat]
    refine (p.within.yields_operand? ((List.drop_suffix 1 cs).trans hcs)).bind fun start hstart => .ite .none ?_
    have hend : ∀ x, OperandAt S start x → Yields (OperandAt S cs)
        ((r.firstAccess p start (x.2.length + 1) x.1 x.2).bind fun y =>
          some (⟨.verbatim "list_splat" (between cs y.2), .splat⟩, y.2)) := fun x hx =>
      (hr.firstAccess p _ hx).bind fun _ h => .some (operandAt_splat h.rest rfl)
    dsimp only
    split
    · exact (ih hstart).bind hend
    · exact (hr.atom p hstart).bind hend

theorem chainRule (hcs : cs <:+ S) : Yields (OperandAt S cs) (r.chainRule p cs) := by
  refine .ite .none (.ite ?_ ?_)
  · refine (hr.splat p cs.length hcs).bind fun ⟨o, stop⟩ ho => ?_
    have hwhole := hr.postfixed p ho
    exact .ite (.some (operandAt_splat hwhole.rest rfl)) (.some hwhole)
  · exact (hr.atom p hcs).bind fun ⟨o, stop⟩ ho => .some (hr.postfixed p ho)

/-! ## Arithmetic -/

omit hr in
/-- **A minus sign turns the value of a literal around**, and other signs keep their text. -/
theorem operandAt_signed {c : Char} {behind stop : List Char} {o : Operand} (hcs : c :: behind <:+ S)
    (hskips : Skips behind start) (ho : OperandAt S start (o, stop)) :
    OperandAt S (c :: behind) (signed c o.expr (c :: behind) stop, stop) := by
  unfold signed
  split
  · next i he =>
    have hliteral := (ho.values _ List.mem_cons_self).signed i he
    exact .of_readAt ho.rest (.of_signed hcs (.minus hskips hliteral)) rfl
  · exact .of_readAt ho.rest (.of_ne (Expr.sourced_literal (by rintro _ ⟨⟩)) (by rintro _ ⟨⟩)) rfl
  · exact operandAt_verbatim (by decide) ho.rest

theorem signedOperand (hcs : cs <:+ S) : Yields (OperandAt S cs) (r.signedOperand p cs) := by
  unfold Rules.signedOperand
  split
  · next h =>
    exact (hr.primary p.later _ (awaited? p hcs _ h)).map fun _ h => operandAt_verbatim (by decide) h.rest
  · split
    · next c behind _ =>
      refine .ite ?_ (hr.chain p hcs)
      refine Yields.bind (P := Skips behind) (fun _ h => Place.skips_of_operand? h) fun start hskips => ?_
      have hstart := hskips.suffix.trans (suffix_of_cons hcs)
      exact (hr.primary p.later _ hstart).bind fun _ h => .some (operandAt_signed hcs hskips h)
    · exact .none

omit hr in
theorem arithmetic? (hcs : cs <:+ S) : Yields (·.2.2 <:+ S) (arithmetic? cs) := by
  have hsingle : ∀ (op : String) (level : Int) (rest : List Char), rest <:+ S →
      Yields (·.2.2 <:+ S) (if rest.head? = some '=' then .none else some (op, level, rest)) :=
    fun _ _ _ h => .ite .none (.some h)
  have htwo : ∀ {c d : Char} {rest : List Char}, c :: d :: rest <:+ S → rest <:+ S := fun h =>
    suffix_of_cons (suffix_of_cons h)
  unfold Rules.arithmetic?
  dsimp only
  split
  all_goals first | exact .none | exact hsingle _ _ _ (htwo hcs) | exact hsingle _ _ _ (suffix_of_cons hcs)

theorem arithmeticStep (level : Int) {left : Operand} (hleft : left.expr.Sourced S) (hcs : cs <:+ S) :
    Yields (OperandAt S start) (r.arithmeticStep p level left cs) := by
  refine (p.yields_next? hcs).bind fun next hnext => ?_
  refine (arithmetic? hnext).bind fun ⟨op, tight, behind⟩ hbehind => .ite .none ?_
  refine (p.within.yields_operand? hbehind).bind fun right hright => ?_
  refine (hr.primary p.later _ hright).bind fun ⟨right, stop⟩ h => ?_
  exact .some (.of_readAt h.rest (.of_ne (hleft.binary h.expr op) (by rintro _ ⟨⟩)) rfl)

theorem primaryRule (level : Int) (hcs : cs <:+ S) : Yields (OperandAt S cs) (r.primaryRule p level cs) :=
  (hr.signedOperand p hcs).map fun _ h => Reading.repeated_induct (I := fun o stop => OperandAt S cs (o, stop))
    (fun _ _ h => hr.arithmeticStep p level h.expr h.rest) h

/-! ## Comparisons -/

omit hr in
theorem comparator? (hcs : cs <:+ S) : Yields (· <:+ S) (comparator? p cs) := by
  unfold Rules.comparator?
  split
  · exact .none
  · exact .none
  · exact .some (suffix_of_cons (suffix_of_cons hcs))
  · exact .some (suffix_of_cons (suffix_of_cons hcs))
  · exact .some (suffix_of_cons (suffix_of_cons hcs))
  · exact .some (suffix_of_cons (suffix_of_cons hcs))
  · exact .some (suffix_of_cons (suffix_of_cons hcs))
  · exact .some (suffix_of_cons hcs)
  · exact .some (suffix_of_cons hcs)
  · split
    · next h => exact .some (Word.yields_after? "in" hcs _ h)
    · split
      · next h => exact p.within.yields_word? "in" (Word.yields_after? "not" hcs _ h)
      · split
        · next h =>
          have hrest := Word.yields_after? "is" hcs _ h
          exact .some ((p.within.yields_word? "not" hrest).getD hrest)
        · exact .none

theorem comparisonStep (hcs : cs <:+ S) : Yields (· <:+ S) (r.comparisonStep p cs) := by
  refine (p.yields_next? hcs).bind fun next hnext => (comparator? p hnext).bind fun behind hbehind => ?_
  exact (p.within.yields_operand? hbehind).bind fun _ hstart => (hr.primary p.later _ hstart).bind fun _ h => .some h.rest

theorem compared (hcs : cs <:+ S) : Yields (OperandAt S cs) (r.compared p cs) := by
  refine (hr.primary p _ hcs).bind fun ⟨o, stop⟩ ho => ?_
  dsimp only
  split
  · next h =>
    refine .some (operandAt_verbatim (by decide) ?_)
    exact Reading.repeated_induct (I := fun _ cs => cs <:+ S) (fun _ _ h => (hr.comparisonStep p h).map fun _ h => h)
      (hr.comparisonStep p ho.rest _ h)
  · exact .some ho

/-! ## Words -/

/-- An operand behind a word, of which the text is kept. -/
theorem worded {kind : String} (hkind : kind ≠ "integer") (level tight inner : Int) (hcs : cs <:+ S) :
    Yields (OperandAt S start) (do
      if tight ≤ level then .none
      let (_, stop) ← r.expression p.later inner (← p.within.operand? cs)
      some (.verbatim kind start stop, stop)) :=
  .ite .none ((p.within.yields_operand? hcs).bind fun _ hstart =>
    (hr.expression_rest p.later _ hstart).bind fun _ h => .some (operandAt_verbatim hkind h))

theorem wordStep (level : Int) (o : Operand) (hcs : cs <:+ S) : Yields (OperandAt S start) (r.wordStep p level start o cs) := by
  refine (p.yields_next? hcs).bind fun next hnext => (Word.yields_read? hnext).bind fun ⟨w, behind⟩ hbehind => ?_
  refine .ite (hr.worded p (by decide) _ _ _ hbehind) (.ite (hr.worded p (by decide) _ _ _ hbehind)
    (.ite (hr.worded p (by decide) _ _ _ hbehind) (.ite ?_ .none)))
  refine .ite .none ?_
  refine (p.within.yields_operand? hbehind).bind fun start hstart => ?_
  refine (hr.expression_rest p.within _ hstart).bind fun ⟨_, stop⟩ hstop => ?_
  refine (p.within.yields_word? "else" hstop).bind fun behind hbehind => ?_
  refine (p.within.yields_operand? hbehind).bind fun start hstart => ?_
  exact (hr.expression_rest p.later _ hstart).bind fun _ h => .some (operandAt_verbatim (by decide) h)

theorem named? (o : Operand) (hcs : cs <:+ S) : Yields (OperandAt S start) (r.named? p start o cs) := by
  refine .ite .none ?_
  refine (p.yields_next? hcs).bind fun next hnext => ?_
  dsimp only
  split
  · refine (p.within.yields_operand? (suffix_of_cons (suffix_of_cons hnext))).bind fun _ hstart => ?_
    exact (hr.expression_rest p.later _ hstart).bind fun _ h => .some (operandAt_verbatim (by decide) h)
  · exact .none

theorem leading (hcs : cs <:+ S) : Yields (OperandAt S cs) (r.leading p cs) := by
  unfold Rules.leading
  split
  · next h =>
    refine (p.within.yields_operand? (Word.yields_after? "not" hcs _ h)).bind fun _ hstart => ?_
    exact (hr.expression_rest p.later _ hstart).bind fun _ h => .some (operandAt_verbatim (by decide) h)
  · refine .ite (hr.lambda? p (fun _ => hr.expression_rest p.later _) hcs) ?_
    exact (hr.compared p hcs).bind fun ⟨o, stop⟩ ho => .some ((hr.named? p o ho.rest).getD ho)

theorem expressionRule (level : Int) (hcs : cs <:+ S) : Yields (OperandAt S cs) (r.expressionRule p level cs) :=
  (hr.leading p hcs).map fun _ h => Reading.repeated_induct (I := fun o stop => OperandAt S cs (o, stop))
    (fun o _ h => hr.wordStep p level o h.rest) h

/-! ## Interpolations -/

theorem formatFrom (fuel : Nat) (hcs : cs <:+ S) : Yields (· <:+ S) (r.formatFrom p fuel cs) := by
  induction fuel generalizing cs with
  | zero => exact .none
  | succ fuel ih =>
    cases cs with
    | nil => exact .none
    | cons c cs =>
      have hrest := suffix_of_cons hcs
      rw [Rules.formatFrom]
      exact .ite (.some hrest) (.ite ((hr.interpolation p hrest).bind fun _ => ih) (ih hrest))

omit hr in
theorem conversion? (hcs : cs <:+ S) : Yields (· <:+ S) (conversion? p cs) := by
  unfold Rules.conversion?
  split
  · next h => exact .ite (.some (suffix_of_cons (suffix_of_cons (p.yields_next? hcs _ h)))) .none
  · exact .none

/-- An interpolation ends with its brace, or with a format before that. -/
theorem interpolationEnd (hcs : cs <:+ S) : Yields (· <:+ S) (do
    let stop := (p.after? '=' cs).getD cs
    let stop := (Rules.conversion? p stop).getD stop
    match ← p.next? stop with
    | '\x7d' :: rest => some rest
    | ':' :: rest => r.formatFrom p (rest.length + 1) rest
    | _ => .none) := by
  have hstop := (p.yields_after? '=' hcs).getD hcs
  refine (p.yields_next? ((conversion? p hstop).getD hstop)).bind fun next hnext => ?_
  split
  · exact .some (suffix_of_cons hnext)
  · exact hr.formatFrom p _ (suffix_of_cons hnext)
  · exact .none

theorem interpolationRule (hcs : cs <:+ S) : Yields (· <:+ S) (r.interpolationRule p cs) := by
  generalize hq : ({ p.bracketed with quiet := true } : Place) = q
  unfold Rules.interpolationRule
  rw [hq]
  refine (q.within.yields_operand? hcs).bind fun start hstart => ?_
  dsimp only
  split
  · next h => exact hr.interpolationEnd q (hr.yielded? q hstart _ h).rest
  · exact (Yields.snd ((hr.expressions q hstart).mono fun _ h => h.2)).bind fun _ => hr.interpolationEnd q

end Faithful
end Rules
end PluginTools
