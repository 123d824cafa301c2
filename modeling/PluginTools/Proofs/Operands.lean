/-
How operands are read, rule by rule and for any rules of what is nested in them: the names and constants
that an operand starts with, what may stand behind it, and how an operand becomes an expression where no
operator follows it.
-/
import PluginTools.Proofs.LegibleExpr

namespace PluginTools

open Layout (endsWord startsToken)

/-! ## What stands behind an operand -/

namespace Place

variable {t : List Char}

theorem closes_cons (h : closes t) :
    ∃ c cs, t = c :: cs ∧ c ∈ [',', ')', ']', ':', '='] ∧ (c = ':' ∨ c = '=' → cs.head? ≠ some '=') := by
  cases t with
  | nil => cases h
  | cons c cs =>
    refine ⟨c, cs, rfl, ?_⟩
    simp only [closes, Bool.or_eq_true, Bool.and_eq_true, List.contains_eq_mem, decide_eq_true_eq, bne_iff_ne,
      List.mem_cons, List.not_mem_nil, or_false] at h
    rcases h with (rfl | rfl | rfl) | ⟨rfl | rfl, h⟩ <;> simp_all

/-- Whether a token ends an operand: what ends an expression does, and so does an operator that binds no tighter
than a level. -/
def closesAt (level : Int) (cs : List Char) : Bool :=
  closes cs || Expr.operators.any fun o => decide (o.2 ≤ level) && (o.1.toList ++ [' ']).isPrefixOf cs

/-- Whether a token ends an operand, with whatever operator. -/
def closesOperand : List Char → Bool := closesAt Level.power

/-- Whether a token is no part of an atom before it: it ends an operand or stands behind its base. -/
def endsAtom (cs : List Char) : Bool := closesOperand cs || cs.head?.any fun c => ['.', '[', '('].contains c

variable {level : Int}

theorem closesAt_iff : closesAt level t ↔ closes t ∨ ∃ operator cs, Expr.isOperator operator ∧
    Expr.levelOf operator ≤ level ∧ t = operator.toList ++ ' ' :: cs := by
  simp only [closesAt, Bool.or_eq_true, List.any_eq_true, Bool.and_eq_true, decide_eq_true_eq, List.isPrefixOf_iff_prefix]
  refine or_congr_right ⟨?_, ?_⟩
  · rintro ⟨o, ho, hlevel, cs, rfl⟩
    have hall : ∀ o ∈ Expr.operators, Expr.isOperator o.1 ∧ Expr.levelOf o.1 = o.2 := by decide
    obtain ⟨hop, heq⟩ := hall o ho
    exact ⟨o.1, cs, hop, heq ▸ hlevel, by simp⟩
  · rintro ⟨operator, cs, hop, hlevel, rfl⟩
    have hmem := Expr.forall_operator (P := fun o level => (o, level) ∈ Expr.operators) (fun o ho => ho) hop
    exact ⟨_, hmem, hlevel, cs, by simp⟩

theorem closesAt_of_closes (h : closes t) : closesAt level t := by
  simp [closesAt, h]

theorem closesAt_mono {level' : Int} (hle : level ≤ level') (h : closesAt level t) : closesAt level' t := by
  rw [closesAt_iff] at h ⊢
  refine h.imp id ?_
  rintro ⟨operator, cs, hop, hlevel, ht⟩
  exact ⟨operator, cs, hop, Int.le_trans hlevel hle, ht⟩

theorem closesOperand_of_closesAt (h : closesAt level t) : closesOperand t := by
  rw [closesAt_iff] at h
  refine closesAt_iff.2 (h.imp id ?_)
  rintro ⟨operator, cs, hop, -, ht⟩
  exact ⟨operator, cs, hop, (Expr.levelOf_bounds hop).2, ht⟩

theorem closesOperand_cons (h : closesOperand t) :
    ∃ c cs, t = c :: cs ∧ (c ∈ [',', ')', ']', ':', '='] ∨ c ∈ Expr.operatorMarks) := by
  rcases closesAt_iff.1 h with h | ⟨operator, cs, hop, -, rfl⟩
  · obtain ⟨c, cs, rfl, hc, -⟩ := closes_cons h
    exact ⟨c, cs, rfl, .inl hc⟩
  · obtain ⟨c, ds, htext, hc⟩ := Expr.operator_cons hop
    exact ⟨c, ds ++ ' ' :: cs, by simp [htext], .inr hc⟩

/-- What ends an operand is none of the marks behind a base. -/
theorem closesOperand_ne {c : Char} {cs : List Char} (h : closesOperand (c :: cs)) : c ∉ ['.', '[', '('] := by
  have hall : ([',', ')', ']', ':', '='] ++ Expr.operatorMarks).all (fun c => !(['.', '[', '('] : List Char).contains c) := by decide
  obtain ⟨d, ds, heq, hd⟩ := closesOperand_cons h
  obtain ⟨rfl, rfl⟩ := List.cons.inj heq
  simpa using List.all_eq_true.1 hall c (List.mem_append.2 hd)

/-- What is no part of an atom is a mark. -/
theorem isMark_of_endsAtom (h : endsAtom t) : ∃ c cs, t = c :: cs ∧ Layout.isMark c := by
  simp only [endsAtom, Bool.or_eq_true] at h
  rcases h with h | h
  · obtain ⟨c, cs, rfl, hc | hc⟩ := closesOperand_cons h
    · have hall : [',', ')', ']', ':', '='].all Layout.isMark := by decide
      exact ⟨c, cs, rfl, List.all_eq_true.1 hall c hc⟩
    · exact ⟨c, cs, rfl, Expr.isMark_of_mem_operatorMarks hc⟩
  · cases t with
    | nil => cases h
    | cons c cs =>
      have hall : ['.', '[', '('].all Layout.isMark := by decide
      exact ⟨c, cs, rfl, List.all_eq_true.1 hall c (by simpa using h)⟩

theorem endsAtom_of_closesOperand (h : closesOperand t) : endsAtom t := by
  simp [endsAtom, h]

theorem endsWord_of_endsAtom (h : endsAtom t) : endsWord t := by
  obtain ⟨c, cs, rfl, hc⟩ := isMark_of_endsAtom h
  exact Layout.endsWord_mark hc cs

theorem startsString_of_endsAtom (h : endsAtom t) : Layout.startsString t = false := by
  obtain ⟨c, cs, rfl, hc⟩ := isMark_of_endsAtom h
  exact Layout.startsString_mark hc cs

theorem read?_of_closes (h : closes t) : Word.read? t = none := by
  obtain ⟨c, cs, rfl, hc⟩ := isMark_of_endsAtom (endsAtom_of_closesOperand (closesAt_of_closes h))
  exact Layout.read?_mark hc cs

variable {p : Place} {rest : List Char}

theorem Leads.closed (h : p.Leads closes rest) : p.Leads (closesAt level) rest :=
  h.mono fun _ => closesAt_of_closes

theorem Leads.operand (h : p.Leads closes rest) : p.Leads closesOperand rest := h.closed

theorem Leads.anyOperator (h : p.Leads (closesAt level) rest) : p.Leads closesOperand rest :=
  h.mono fun _ => closesOperand_of_closesAt

theorem Leads.atom (h : p.Leads closesOperand rest) : p.Leads endsAtom rest :=
  h.mono fun _ => endsAtom_of_closesOperand

theorem Leads.endsWord_atom (h : p.Leads endsAtom rest) : Layout.endsWord rest :=
  h.endsWord fun _ => endsWord_of_endsAtom

theorem Leads.endsWord_rest (h : p.Leads closesOperand rest) : Layout.endsWord rest :=
  h.atom.endsWord_atom

/-- An operator behind a blank. -/
theorem Leads.operator {operator : String} (hop : Expr.isOperator operator) (hlevel : Expr.levelOf operator ≤ level)
    (cs : List Char) : p.Leads (closesAt level) (' ' :: (operator.toList ++ ' ' :: cs)) := by
  have hcloses : closesAt level (operator.toList ++ ' ' :: cs) := closesAt_iff.2 (.inr ⟨operator, cs, hop, hlevel, rfl⟩)
  obtain ⟨c, ds, htext, hc⟩ := Expr.operator_cons hop
  rw [htext, List.cons_append] at hcloses ⊢
  exact .blank_mark (Expr.isMark_of_mem_operatorMarks hc) hcloses

end Place

namespace Rules

variable {r : Rules} {p : Place} {rest : List Char}

theorem postfixStep_of_leads (h : p.Leads Place.closesOperand rest) (start : List Char) (o : Operand) :
    r.postfixStep p start o rest = .none := by
  rcases h.next? with hnext | ⟨t, hnext, ht⟩
  · simp [postfixStep, hnext]
  · obtain ⟨c, cs, rfl, -⟩ := Place.closesOperand_cons ht
    have hne := Place.closesOperand_ne ht
    simp only [List.mem_cons, List.not_mem_nil, or_false, not_or] at hne
    simp [postfixStep, hnext, hne]

theorem moreStrings_of_leads (h : p.Leads Place.endsAtom rest) (fuel : Nat) : r.moreStrings p fuel rest = ([], rest) := by
  cases fuel with
  | zero => rfl
  | succ fuel =>
    rcases h true with hnext | ⟨t, hnext, ht⟩
    · simp [moreStrings, hnext]
    · simp [moreStrings, hnext, Place.startsString_of_endsAtom ht]

/-- An operator that binds no tighter than a level is none where operators have to. -/
theorem arithmeticStep_of_leads {level : Int} (h : p.Leads (Place.closesAt level) rest) (left : Operand) :
    r.arithmeticStep p level left rest = .none := by
  rcases h.next? with hnext | ⟨t, hnext, ht⟩
  · simp [arithmeticStep, hnext]
  · rcases Place.closesAt_iff.1 ht with ht | ⟨operator, cs, hop, hlevel, rfl⟩
    · obtain ⟨c, cs, rfl, hc, -⟩ := Place.closes_cons ht
      simp only [List.mem_cons, List.not_mem_nil, or_false] at hc
      rcases hc with rfl | rfl | rfl | rfl | rfl <;> simp [arithmeticStep, hnext, arithmetic?]
    · simp [arithmeticStep, hnext, Expr.arithmetic?_operator hop, hlevel]

section
variable (h : p.Leads Place.closes rest)
include h

theorem comparisonStep_of_leads : r.comparisonStep p rest = .none := by
  rcases h.next? with hnext | ⟨t, hnext, ht⟩
  · simp [comparisonStep, hnext]
  · have hword := Word.after?_of_read?_eq_none (Place.read?_of_closes ht)
    obtain ⟨c, cs, rfl, hc, heq⟩ := Place.closes_cons ht
    have hcomparator : comparator? p (c :: cs) = .none := by
      simp only [List.mem_cons, List.not_mem_nil, or_false] at hc
      unfold comparator?
      rcases hc with rfl | rfl | rfl | rfl | rfl <;> split <;> simp_all
    simp [comparisonStep, hnext, hcomparator]

theorem named?_of_leads (start : List Char) (o : Operand) : r.named? p start o rest = .none := by
  unfold named?
  by_cases ho : o.isName
  · rcases h.next? with hnext | ⟨t, hnext, ht⟩
    · simp [ho, hnext]
    · obtain ⟨c, cs, rfl, hc, heq⟩ := Place.closes_cons ht
      simp only [List.mem_cons, List.not_mem_nil, or_false] at hc
      rcases hc with rfl | rfl | rfl | rfl | rfl <;> simp [ho, hnext]
      split <;> simp_all
  · simp [ho]

theorem wordStep_of_leads (level : Int) (start : List Char) (o : Operand) :
    r.wordStep p level start o rest = .none := by
  rcases h.next? with hnext | ⟨t, hnext, ht⟩
  · simp [wordStep, hnext]
  · simp [wordStep, hnext, Place.read?_of_closes ht]

end

/-! ## Atoms -/

theorem atom_word {w : List Char} (hw : Word.isWord w) (hrest : endsWord rest) :
    r.atom p (w ++ rest) = some (ofWord w, rest) := by
  have hread := Word.read?_append hw hrest
  have hstring := Layout.startsString_word hw hrest
  cases w with
  | nil => cases hw
  | cons c w =>
    simp only [Word.isWord, Bool.and_eq_true] at hw
    have hnumber := Numeral.read?_of_isOpening hw.1 (w ++ rest)
    have hne : ∀ d, Word.isOpening d = false → c ≠ d := fun d hd he => by simp [← he, hw.1] at hd
    have hpoint : c ≠ '.' := hne '.' (by decide)
    simp only [List.cons_append] at hread hstring ⊢
    simp [atom, hread, hstring, hnumber, hne '(' (by decide), hne '[' (by decide), hne '\x7b' (by decide)]
    split
    · next h => exact absurd (List.cons.inj h).1 hpoint
    · rfl

theorem atom_name {id : String} (hid : isOperandName id) (hrest : endsWord rest) :
    r.atom p (id.toList ++ rest) = some (⟨.name id, .name⟩, rest) := by
  have hne : ∀ w ∈ ["True", "False", "None"], id ≠ w := fun w hw he =>
    toList_ne_of_isOperandName hid
      ((show ∀ w ∈ ["True", "False", "None"], w ∈ expressionWords by decide) w hw) (congrArg String.toList he)
  rw [atom_word (isWord_of_isOperandName hid) hrest]
  simp [ofWord, hne "True" (by simp), hne "False" (by simp), hne "None" (by simp)]

theorem startsString_quote (mark : Char) (hmark : mark = '\x27' ∨ mark = '\x22') (cs : List Char) :
    Layout.startsString (mark :: cs) := by
  rcases hmark with rfl | rfl <;> rfl

theorem atom_string {mark : Char} (hmark : mark = '\x27' ∨ mark = '\x22') (cs : List Char) :
    r.atom p (mark :: cs) = r.strings p (mark :: cs) := by
  have hstring := startsString_quote mark hmark cs
  rcases hmark with rfl | rfl <;> simp [atom, hstring]

/-- A string with no other one behind it is an atom. -/
theorem atom_spells {cs : List Char} {s : String} (h : Quotation.Spells cs s) (hrest : p.Leads Place.endsAtom rest) :
    r.atom p (cs ++ rest) = some ((Expr.text s).operand, rest) := by
  have hread : ∀ f, Quotation.read? f (cs ++ rest) = some (false, rest) := fun f => h.closes f hrest.endsWord_atom
  have hpart : r.stringPart p (cs ++ rest) = some (some s.toList, rest) := by
    simp [stringPart, hread, h.literal]
  have hstrings : r.strings p (cs ++ rest) = some ((Expr.text s).operand, rest) := by
    simp [strings, hpart, moreStrings_of_leads hrest]
    rfl
  obtain ⟨mark, more, hmark, rfl⟩ := h.opens
  exact (atom_string hmark _).trans hstrings

/-- A number is an atom. -/
theorem atom_number {cs : List Char} {e : Expr} (hdigit : ∃ c ds, cs = c :: ds ∧ Number.isDigit c)
    (hread : Numeral.read? (cs ++ rest) = some (e, rest)) : r.atom p (cs ++ rest) = some (⟨e, .plain⟩, rest) := by
  obtain ⟨c, ds, rfl, hc⟩ := hdigit
  rw [List.cons_append] at hread ⊢
  have hne : ∀ d, Number.isDigit d = false → c ≠ d := fun d hd he => by simp [← he, hc] at hd
  have hstring : Layout.startsString (c :: (ds ++ rest)) = false := by
    have hprefix : ∀ n < 58, Number.isDigit (Char.ofNat n) →
        Layout.isQuotePrefix (Char.ofNat n) = false ∧ Layout.isQuote (Char.ofNat n) = false := by decide
    obtain ⟨n, hn, rfl⟩ := Number.ofNat_of_isDigit hc
    simp [Layout.startsString, Layout.startsQuote, hprefix n hn hc]
  simp [atom, hread, hstring, hne '(' (by decide), hne '[' (by decide), hne '\x7b' (by decide)]

/-- No decimal point stands behind an operand. -/
theorem head?_ne_point (h : p.Leads Place.closesOperand rest) : rest.head? ≠ some '.' := by
  intro hpoint
  obtain ⟨cs, rfl⟩ := List.head?_eq_some_iff.1 hpoint
  rcases h true with hnext | ⟨t, hnext, ht⟩
  · simp [Place.token?_mark (show Layout.isMark '.' by decide)] at hnext
  · simp only [Place.token?_mark (show Layout.isMark '.' by decide), Option.some.injEq, Prod.mk.injEq, true_and] at hnext
    subst hnext
    exact absurd (by simp) (Place.closesOperand_ne ht)

/-! ## Operands and expressions -/

theorem awaited?_eq_none {cs : List Char} (h : Word.after? "await" cs = .none) : awaited? p cs = .none := by
  simp [awaited?, h]

/-- An atom with what stands behind it is an operand. -/
theorem chainRule_of_reaches {cs stop : List Char} {o o' : Operand} (hawait : Word.after? "await" cs = .none)
    (hstar : cs.head? ≠ some '*') (hatom : r.atom p cs = some (o, stop))
    (hreach : Reading.Reaches (r.postfixStep p cs) o stop o' rest) (hrest : p.Leads Place.closesOperand rest) :
    r.chainRule p cs = some (o', rest) := by
  have hloop := Reading.repeated_of_reaches hreach (postfixStep_of_leads hrest cs o')
  simp [chainRule, awaited?_eq_none hawait, hstar, hatom, hloop]

theorem chainRule_of_atom {cs : List Char} {o : Operand} (hawait : Word.after? "await" cs = .none)
    (hstar : cs.head? ≠ some '*') (hatom : r.atom p cs = some (o, rest)) (hrest : p.Leads Place.closesOperand rest) :
    r.chainRule p cs = some (o, rest) :=
  chainRule_of_reaches hawait hstar hatom .refl hrest

theorem signedOperand_of_chain {c : Char} {cs : List Char} (hawait : Word.after? "await" (c :: cs) = .none)
    (hsign : isSign c = false) : r.signedOperand p (c :: cs) = r.chain p (c :: cs) := by
  simp [signedOperand, awaited?_eq_none hawait, hsign]

/-- An operand with the operators behind it that bind tighter than a level. -/
theorem primaryRule_of_reaches {cs stop : List Char} {o o' : Operand} {level : Int}
    (hoperand : r.signedOperand p cs = some (o, stop)) (hreach : Reading.Reaches (r.arithmeticStep p level) o stop o' rest)
    (hrest : p.Leads (Place.closesAt level) rest) : r.primaryRule p level cs = some (o', rest) := by
  simp [primaryRule, hoperand, Reading.repeated_of_reaches hreach (arithmeticStep_of_leads hrest o')]

/-- An operand with no operator behind it is an expression. -/
theorem expressionRule_of_primary {cs : List Char} {o : Operand} (level : Int)
    (hnot : Word.after? "not" cs = .none) (hlambda : Word.after? "lambda" cs = .none)
    (hprimary : r.primary p Level.comparison cs = some (o, rest)) (hrest : p.Leads Place.closes rest) :
    r.expressionRule p level cs = some (o, rest) := by
  have hcompared : r.compared p cs = some (o, rest) := by
    simp [compared, hprimary, comparisonStep_of_leads hrest]
  have hleading : r.leading p cs = some (o, rest) := by
    simp [leading, hnot, Word.opens_of_after?_eq_none hlambda, hcompared, named?_of_leads hrest]
  simp [expressionRule, hleading, Reading.repeated_of_stop (wordStep_of_leads hrest level cs o)]

end Rules
end PluginTools
