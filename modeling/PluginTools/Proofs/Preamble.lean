/-
The preamble of a generated module. Its comments are no part of any statement; its imports and the type variable
that it declares are statements of which nothing is kept.
-/
import PluginTools.Proofs.Lines

namespace PluginTools

open Layout (LineBreak endsWord startsToken)

namespace Rules

variable {r : Rules} {p : Place} {length n : Nat} {cs t start : List Char} {s : String}

/-! ## A call with a string -/

/-- One string is read as the arguments of a call. -/
theorem arguments_of_spells (hr : r.Covers length) (hs : Quotation.Spells cs s) :
    r.arguments p (cs ++ ')' :: t) = some ([.positional (.text s)], t) := by
  have hleads : p.bracketed.comprehended.item.Leads Place.closes (')' :: t) := .mark (by decide) rfl
  have hread := (hr.string hs hleads).2 Level.lowest
  have hword := not_word_of_spells hs (')' :: t)
  have hhead : ∀ c, c ≠ '\x27' ∧ c ≠ '\x22' → (cs ++ ')' :: t).head? ≠ some c := fun c hc =>
    head?_ne_of_spells hs hc (')' :: t)
  have hstar := hhead '*' (by decide)
  have hstars : ['*', '*'].isPrefixOf (cs ++ ')' :: t) = false := by
    obtain ⟨mark, more, hmark, rfl⟩ := hs.opens
    rcases hmark with rfl | rfl <;> rfl
  have hnamed : r.namedArgument p.bracketed (cs ++ ')' :: t) = .none := by
    rw [namedArgument_of_not_star hstar, keywordArgument, hword]
    rfl
  have hitem : r.starItem p.bracketed.comprehended (cs ++ ')' :: t) = some ((Expr.text s).operand, ')' :: t) := by
    unfold starItem
    split
    · next h => simp [h] at hstar
    · exact hread
  have hclauses : startsClauses p.bracketed (')' :: t) = false :=
    startsClauses_of_leads (.mark (by decide) rfl)
  have hempty : r.moreArguments p.bracketed (Place.itemsText Argument.chars [] ++ ')' :: t) = some ([], t) :=
    moreArguments_of_legible (by simp)
  have hmore : r.moreArguments p.bracketed (')' :: t) = some ([], t) := hempty
  have hclose := hhead ')' (by decide)
  have hcomma := hhead ',' (by decide)
  simp only [arguments, Place.token?_of_startsToken (startsToken_of_spells hs _), Option.bind_eq_bind, Option.bind_some]
  split
  · next h => simp [h] at hclose
  · next h => simp [h] at hcomma
  · simp [hnamed, hstars, hitem, hclauses, hmore]

variable {id : String}

/-- A name and a string in parentheses are a call. -/
theorem chainRule_call_string (hr : r.Covers length) (hid : isOperandName id) (hs : Quotation.Spells cs s)
    (ht : p.Leads Place.closesOperand t) :
    r.chainRule p (id.toList ++ '(' :: (cs ++ ')' :: t)) = some (⟨.call (.name id) [.text s] [], .plain⟩, t) := by
  have hlegible : (Expr.name id).Legible := .name hid
  have hstep : r.postfixStep p (id.toList ++ '(' :: (cs ++ ')' :: t)) ⟨.name id, .name⟩ ('(' :: (cs ++ ')' :: t)) =
      some (⟨.call (.name id) [.text s] [], .plain⟩, t) := by
    simp [postfixStep, Place.next?_mark (show Layout.isMark '(' by decide), call, arguments_of_spells hr hs,
      Argument.isVerbatim, Argument.positional?, Argument.keyword?]
  have hreach := Reading.Reaches.refl.snoc hstep (by simp only [List.length_cons, List.length_append]; omega)
  exact chainRule_of_reaches (hlegible.after? rfl (show "await" ∈ expressionWords by decide) (by decide))
    (hlegible.head?_ne (show Expr.isLead '*' = false by decide) _) (atom_name hid rfl) hreach ht

theorem expression_call_string (hn : 4 ≤ n) (level : Int) (hid : isOperandName id) (hs : Quotation.Spells cs s)
    (ht : p.Leads Place.closes t) :
    (depth (n + 3)).expression p level (id.toList ++ '(' :: (cs ++ ')' :: t)) =
      some (⟨.call (.name id) [.text s] [], .plain⟩, t) := by
  have hword := isWord_of_isOperandName hid
  have hchain : (depth (n + 1)).chain p (id.toList ++ '(' :: (cs ++ ')' :: t)) = some _ :=
    chainRule_call_string (covers_depth (by omega) : (depth n).Covers 0) hid hs ht.operand
  have hafter : ∀ word ∈ expressionWords, Word.after? word (id.toList ++ '(' :: (cs ++ ')' :: t)) = .none :=
    fun word hw => by rw [Word.after?_append hword rfl, if_neg (toList_ne_of_isOperandName hid hw)]
  have hhead : ∀ c, Word.isOpening c = false → (id.toList ++ '(' :: (cs ++ ')' :: t)).head? ≠ some c :=
    fun c hc => Word.head?_append_ne hword hc _
  have hnot := hafter "not" (by decide)
  have hlambda := hafter "lambda" (by decide)
  have hawait := hafter "await" (by decide)
  have hminus := hhead '-' (by decide)
  have hplus := hhead '+' (by decide)
  have htilde := hhead '~' (by decide)
  obtain ⟨c, cs, htext⟩ : ∃ c rest, id.toList ++ '(' :: (cs ++ ')' :: t) = c :: rest :=
    List.exists_cons_of_ne_nil (by simp)
  rw [htext] at hchain hnot hlambda hawait hminus hplus htilde ⊢
  simp only [List.head?_cons, ne_eq, Option.some.injEq] at hminus hplus htilde
  have hsigned := signedOperand_of_chain hawait (p := p) (r := depth (n + 1)) (by simp [isSign, hminus, hplus, htilde])
  rw [hchain] at hsigned
  exact expressionRule_of_primary level hnot hlambda (primaryRule_of_reaches hsigned .refl ht.closed) ht

/-- Such a call on the right of an assignment. -/
theorem assigned_call_string (hid : isOperandName id) (hs : Quotation.Spells cs s) (hn : 4 ≤ n)
    (hline : p.line) {column : Nat} (ht : LineBreak t column start) :
    (depth (n + 4)).assigned p (id.toList ++ '(' :: (cs ++ ')' :: t)) = some t := by
  have hleads : ({ p with opening := .statement } : Place).Leads Place.closes t := .lineBreak hline ht
  have hyield : Word.after? "yield" (id.toList ++ '(' :: (cs ++ ')' :: t)) = .none := by
    rw [Word.after?_append (isWord_of_isOperandName hid) rfl, if_neg (toList_ne_of_isOperandName hid (by decide))]
  have hchain : (depth (n + 3)).chain { p with opening := .statement } (id.toList ++ '(' :: (cs ++ ')' :: t)) = some _ :=
    chainRule_call_string (covers_depth (by omega) : (depth (n + 2)).Covers 0) hid hs hleads.operand
  have hread := expression_call_string (p := { p with opening := .statement }) hn Level.lowest hid hs hleads
  have hassign : (depth (n + 3)).assignment { p with opening := .statement }
      [⟨.call (.name id) [.text s] [], .plain⟩] false t = .none := rfl
  have hstatement := expressionStatement_of_operand true hyield hchain rfl hread
    (Place.mark?_lineBreak (p := { p with opening := .statement }) hline ht ',')
  have hgap : p.ending.gap false t = ⟨[], .newline t⟩ := Place.gap_lineBreak rfl ht
  have hrule : (depth (n + 4)).assigned p (id.toList ++ '(' :: (cs ++ ')' :: t)) =
      (depth (n + 3)).assignedRule p (id.toList ++ '(' :: (cs ++ ')' :: t)) := rfl
  rw [hrule, assignedRule, hstatement, hassign]
  simp [closes, hgap]

/-! ## Statements -/

/-- The string that names the type variable. -/
theorem spells_typeVariable : Quotation.Spells "\"T\"".toList "T" where
  opens := ⟨'\x22', _, .inr rfl, rfl⟩
  closes interpolation {rest} hrest := by
    have hopen := Quotation.open?_mark (t := 'T' :: '\x22' :: rest) (.inr rfl) rfl
    have hcloses : (Quotation.bare '\x22' false).ClosesAt interpolation rest ('T' :: '\x22' :: rest) :=
      Quotation.closesAt_plain (by decide) (by decide) (.inl (by decide)) (Quotation.runsTo_mark (by decide))
    have htext : "\"T\"".toList ++ rest = '\x22' :: 'T' :: '\x22' :: rest := rfl
    rw [htext, Quotation.read?, hopen]
    exact hcloses _ (Nat.lt_succ_self _)
  literal := by decide

/-- What an equals sign and a call with a string behind a name make of it. -/
theorem assignment_call_string {field : String} (hid : isOperandName id) (hs : Quotation.Spells cs s) (hn : 4 ≤ n)
    (hline : p.line) {column : Nat} (ht : LineBreak t column start) :
    (depth (n + 4)).assignment p [⟨.name field, .name⟩] false (' ' :: '=' :: ' ' :: (id.toList ++ '(' :: (cs ++ ')' :: t))) =
      some (.other, t) := by
  have hassigned := assigned_call_string hid hs hn hline ht
  have hstart : startsToken (id.toList ++ '(' :: (cs ++ ')' :: t)) :=
    Layout.startsToken_word (isWord_of_isOperandName hid) _
  generalize id.toList ++ '(' :: (cs ++ ')' :: t) = value at *
  simp [assignment, Operand.isTarget, Place.next?_blank_mark (show Layout.isMark '=' by decide), augmented?, rightSide,
    Place.operand?_blank hstart, hassigned]

/-- The declaration of the type variable is a statement. -/
theorem statement_typeVariable (hn : 4 ≤ n) (ht : LineBreak t 0 start) :
    (depth (n + 4)).statement 0 ("T = TypeVar(\"T\")".toList ++ t) = some ([⟨.other, "T = TypeVar(\"T\")"⟩], t) := by
  have hid : isOperandName "T" := by decide
  have hlegible : (Expr.name "T").Legible := .name hid
  have htext : "T = TypeVar(\"T\")".toList ++ t =
      "T".toList ++ ' ' :: '=' :: ' ' :: ("TypeVar".toList ++ '(' :: ("\"T\"".toList ++ ')' :: t)) := rfl
  have hassign : (depth (n + 4)).assignment { Place.lineAt 0 with opening := .statement } [⟨.name "T", .name⟩] false
      (' ' :: '=' :: ' ' :: ("TypeVar".toList ++ '(' :: ("\"T\"".toList ++ ')' :: t))) = some (.other, t) :=
    assignment_call_string (by decide) spells_typeVariable hn rfl ht
  generalize "TypeVar".toList ++ '(' :: ("\"T\"".toList ++ ')' :: t) = value at htext hassign
  have hleads : ({ Place.lineAt 0 with opening := .statement } : Place).Leads Place.closes (' ' :: '=' :: ' ' :: value) :=
    .blank_mark (by decide) rfl
  have hcovers : (depth (n + 4)).Covers 1 := covers_depth (by omega)
  have hstatement := expressionStatement_of_operand (p := Place.lineAt 0) false
    (hlegible.after? (t := ' ' :: '=' :: ' ' :: value) rfl (show "yield" ∈ expressionWords by decide) (by decide))
    (hcovers.name hid hleads) rfl
    (hcovers.expression (.name "T") hlegible (by decide) _ _ _ hleads) (by simp [Place.mark?, Place.token?_blank_mark (show Layout.isMark '=' by decide)])
  have hword : Word.read? ("T".toList ++ ' ' :: '=' :: ' ' :: value) = some ("T".toList, ' ' :: '=' :: ' ' :: value) :=
    Word.read?_append (by decide) rfl
  have hcompound : (depth (n + 4)).compound? 0 ("T = TypeVar(\"T\")".toList ++ t) = .none := by
    rw [htext]
    exact compound?_of_word hword (by decide)
  have hsimple : (depth (n + 4)).simpleStatement (Place.lineAt 0) ("T = TypeVar(\"T\")".toList ++ t) = some (.other, t) := by
    rw [htext, simpleStatement_of_word hword (by decide)]
    exact hstatement.trans (by simp [hassign])
  simpa using statement_of_simpleStatement hcompound hsimple ht

end Rules
end PluginTools
