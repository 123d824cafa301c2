/-
The lines of a block. A docstring, a `return` and a field with its type are read each as one statement up to
the end of its line, and a block of such lines behind a colon is read line by line up to the next block.
-/
import PluginTools.Proofs.Types

namespace PluginTools

open Layout (LineBreak endsWord startsToken)

/-- The rules are deep enough for legible expressions and types of a length. -/
structure Rules.Covers (r : Rules) (length : Nat) : Prop where
  expression : ∀ x : Expr, x.Legible → x.chars.length ≤ length → r.Reads x
  type : ∀ x : Expr, x.Legible → x.chars.length ≤ length → r.ReadsType x
  name : ∀ {id : String} {p : Place} {t : List Char}, isOperandName id → p.Leads Place.closes t →
    r.chain p (id.toList ++ t) = some (⟨.name id, .name⟩, t)
  string : ∀ {p : Place} {cs t : List Char} {s : String}, Quotation.Spells cs s → p.Leads Place.closes t →
    r.chain p (cs ++ t) = some ((Expr.text s).operand, t) ∧
      ∀ level, r.expression p level (cs ++ t) = some ((Expr.text s).operand, t)

namespace Rules

variable {r : Rules} {p : Place} {t : List Char} {length : Nat}

/-! ## Strings -/

section
variable {cs : List Char} {s : String}

/-- A string opens with a quote, which opens no word and is no other mark. -/
theorem not_word_of_spells (h : Quotation.Spells cs s) (t : List Char) : Word.read? (cs ++ t) = .none := by
  obtain ⟨mark, more, hmark, rfl⟩ := h.opens
  rw [List.cons_append]
  exact Word.read?_of_not_isOpening (by rcases hmark with rfl | rfl <;> decide) _

theorem startsToken_of_spells (h : Quotation.Spells cs s) (t : List Char) : startsToken (cs ++ t) := by
  obtain ⟨mark, more, hmark, rfl⟩ := h.opens
  rcases hmark with rfl | rfl <;> rfl

theorem head?_ne_of_spells (h : Quotation.Spells cs s) {c : Char} (hc : c ≠ '\x27' ∧ c ≠ '\x22') (t : List Char) :
    (cs ++ t).head? ≠ some c := by
  obtain ⟨mark, more, hmark, rfl⟩ := h.opens
  rintro he
  simp only [List.cons_append, List.head?_cons, Option.some.injEq] at he
  rcases hmark with rfl | rfl
  · exact hc.1 he.symm
  · exact hc.2 he.symm

end

/-- Rules deep enough for a length. -/
theorem covers_depth {n : Nat} (hn : 3 * length + 4 ≤ n) : (depth n).Covers length where
  expression x hx hle := by
    obtain ⟨k, rfl⟩ : ∃ k, n = k + 3 := ⟨n - 3, by omega⟩
    exact reads_of_legible k hx (by omega)
  type x hx hle := by
    obtain ⟨k, rfl⟩ : ∃ k, n = k + 4 := ⟨n - 4, by omega⟩
    exact readsType_of_legible k hx (by omega)
  name {id p t} hid ht := by
    obtain ⟨k, rfl⟩ : ∃ k, n = k + 1 := ⟨n - 1, by omega⟩
    have hlegible : (Expr.name id).Legible := .name hid
    have hend := ht.operand.endsWord_rest
    rw [depth_chain]
    exact chainRule_of_atom (hlegible.after? hend (show "await" ∈ expressionWords by decide) (by decide))
      (hlegible.head?_ne (show Expr.isLead '*' = false by decide) t) (atom_name hid hend) ht.operand
  string {p cs t s} hs ht := by
    obtain ⟨k, rfl⟩ : ∃ k, n = k + 3 := ⟨n - 3, by omega⟩
    have hafter : ∀ word, Word.after? word (cs ++ t) = .none := Word.after?_of_read?_eq_none (not_word_of_spells hs t)
    have hchain : ∀ m, (depth (m + 1)).chain p (cs ++ t) = some ((Expr.text s).operand, t) := fun m =>
      chainRule_of_atom (hafter "await") (head?_ne_of_spells hs (by decide) t) (atom_spells hs ht.operand.atom) ht.operand
    refine ⟨hchain (k + 2), fun level => ?_⟩
    have hoperand : (depth (k + 1)).signedOperand p (cs ++ t) = some ((Expr.text s).operand, t) := by
      have hchain := hchain k
      obtain ⟨mark, more, hmark, rfl⟩ := hs.opens
      rw [List.cons_append] at hafter hchain ⊢
      rw [signedOperand_of_chain (hafter "await") (by rcases hmark with rfl | rfl <;> rfl), hchain]
    exact expressionRule_of_primary level (hafter "not") (hafter "lambda")
      (primaryRule_of_reaches hoperand .refl ht.closed) ht

/-! ## Expressions as statements -/

theorem expressionsUntil_of_read {cs : List Char} {o : Operand} (ends : List Char → Bool)
    (hread : r.expression p Level.lowest cs = some (o, t)) (hcomma : p.mark? ',' t = .none) :
    r.expressionsUntil p ends cs = some (⟨[o], false, false⟩, t) := by
  simp [expressionsUntil, hread, Place.items, Place.elements_of_mark?_eq_none hcomma, hcomma]

/-- An operand that is no display of targets is not unfolded. -/
theorem unfolded_of_chain {cs : List Char} {o : Operand} (isRight : Bool) (hchain : r.chain p cs = some (o, t))
    (hfilled : o.isFilled = false) (hcomma : p.mark? ',' t = .none) : r.unfolded p isRight cs = .none := by
  have hnone : p.hasComma t = false := by simp [Place.hasComma, Place.after?, hcomma]
  unfold unfolded target
  cases ho : o.isTarget <;> simp [hchain, hfilled, hnone, ho]

/-- One operand with no comma behind it, and what is assigned to it. -/
theorem expressionStatement_of_operand {cs : List Char} {o : Operand} (isRight : Bool)
    (hyield : Word.after? "yield" cs = .none)
    (hchain : r.chain { p with opening := .statement } cs = some (o, t)) (hfilled : o.isFilled = false)
    (hread : r.expression { p with opening := .statement } Level.lowest cs = some (o, t))
    (hcomma : ({ p with opening := .statement } : Place).mark? ',' t = .none) :
    r.expressionStatement p isRight cs =
      some ((r.assignment { p with opening := .statement } [o] false t).getD (.expressions [o.expr], t)) := by
  simp [expressionStatement, yielded?, hyield, unfolded_of_chain isRight hchain hfilled hcomma, expressions,
    expressionsUntil_of_read _ hread hcomma]

/-! ## Lines -/

/-- The words that open a compound statement. -/
def compoundWords : List String := ["def", "class", "if", "for", "while", "try", "with", "match", "async"]

/-- The words that open a simple statement of a kind of its own. -/
def simpleWords : List String :=
  ["return", "pass", "break", "continue", "import", "from", "raise", "assert", "del", "global", "nonlocal", "print",
    "exec", "type"]

theorem compound?_of_word {column : Nat} {cs w rest : List Char} (hread : Word.read? cs = some (w, rest))
    (hw : String.ofList w ∉ compoundWords) : r.compound? column cs = .none := by
  have hat : cs.head? ≠ some '@' := by
    rintro hat
    obtain ⟨cs, rfl⟩ := List.head?_eq_some_iff.1 hat
    cases hread
  simp only [compoundWords, List.mem_cons, List.not_mem_nil, or_false, not_or] at hw
  obtain ⟨hdef, hclass, hif, hfor, hwhile, htry, hwith, hmatch, hasync⟩ := hw
  simp [compound?, hat, hread, hdef, hclass, hif, hfor, hwhile, htry, hwith, hmatch, hasync]

theorem simpleStatement_of_word {cs w rest : List Char} (hread : Word.read? cs = some (w, rest))
    (hw : String.ofList w ∉ simpleWords) : r.simpleStatement p cs = r.expressionStatement p false cs := by
  simp only [simpleWords, List.mem_cons, List.not_mem_nil, or_false, not_or] at hw
  simp [simpleStatement, hread, hw]

/-- An identifier opens neither. -/
theorem not_mem_words_of_isIdentifier {id : String} (hid : isIdentifier id) : id ∉ compoundWords ∧ id ∉ simpleWords := by
  have hcompound : ∀ word ∈ compoundWords, word ∈ reservedWords := by decide
  have hsimple : ∀ word ∈ simpleWords, word ∈ reservedWords := by decide
  exact ⟨fun h => not_reserved_of_isIdentifier hid (hcompound id h),
    fun h => not_reserved_of_isIdentifier hid (hsimple id h)⟩

/-- A text that is one statement of a line, up to the line's end, in a block at the fourth column. -/
structure ReadsLine (r : Rules) (text : List Char) (item : Item) : Prop where
  starts : ∀ t, startsToken (text ++ t)
  reads : ∀ {t start : List Char} {column : Nat}, LineBreak t column start →
    r.statement 4 (text ++ t) = some ([⟨item, String.ofList text⟩], t)

theorem statement_of_simpleStatement {text start : List Char} {column inner : Nat} {item : Item}
    (hcompound : r.compound? inner (text ++ t) = .none)
    (hsimple : r.simpleStatement (Place.lineAt inner) (text ++ t) = some (item, t)) (ht : LineBreak t column start) :
    r.statement inner (text ++ t) = some ([⟨item, String.ofList text⟩], t) := by
  have hgap : (Place.lineAt inner).gap false t = ⟨[], .newline t⟩ := Place.gap_lineBreak rfl ht
  simp [statement, hcompound, lineFrom, hsimple, hgap, between_append]

theorem augmented?_colon (cs : List Char) : augmented? (':' :: cs) = .none := by
  simp [augmented?]

/-- A docstring is a line. -/
theorem readsLine_docstring (hr : r.Covers length) (s : String) :
    r.ReadsLine (Quoted.docstring s.toList) (.expressions [.text s]) := by
  have hs := Quotation.spells_docstring s
  refine ⟨startsToken_of_spells hs, fun {t start column} ht => statement_of_simpleStatement ?_ ?_ ht⟩
  · rw [compound?, if_neg (head?_ne_of_spells hs (by decide) t), not_word_of_spells hs t]
  · have hleads : ({ Place.lineAt 4 with opening := .statement } : Place).Leads Place.closes t := .lineBreak rfl ht
    obtain ⟨hchain, hread⟩ := hr.string hs hleads
    have hword := not_word_of_spells hs t
    have hstatement := expressionStatement_of_operand (r := r) (p := Place.lineAt 4) false
      (Word.after?_of_read?_eq_none hword "yield") hchain rfl (hread Level.lowest) (Place.mark?_lineBreak rfl ht ',')
    simp only [simpleStatement, hword, hstatement]
    rfl

/-- What a colon and a type behind a name make of it. -/
theorem assignment_typed (field : String) {type type' : Expr} (hlegible : type.Legible)
    (htype : r.type p (type.chars ++ t) = some (type', t)) (heq : p.after? '=' t = .none) :
    r.assignment p [⟨.name field, .name⟩] false (':' :: ' ' :: (type.chars ++ t)) = some (.typed field type', t) := by
  simp [assignment, Operand.isTarget, Place.next?_mark (show Layout.isMark ':' by decide), augmented?_colon,
    Place.operand?_blank (hlegible.startsToken t), htype, heq]

/-- A field with its type is a line, if its type is one. -/
theorem readsLine_field (hr : r.Covers length) {field : String} {type type' : Expr} (hfield : isIdentifier field)
    (htype : type.Legible) (hlength : (field.toList ++ ':' :: ' ' :: type.chars).length ≤ length)
    (has : type.typeOf = some type') : r.ReadsLine (field.toList ++ ':' :: ' ' :: type.chars) (.typed field type') := by
  simp only [List.length_append, List.length_cons] at hlength
  refine ⟨fun t => ?_, fun {t start column} ht => ?_⟩
  · rw [List.append_assoc]
    exact Layout.startsToken_word (isWord_of_isIdentifier hfield) _
  · have hname := isOperandName_of_isIdentifier hfield
    have hlegible : (Expr.name field).Legible := .name hname
    obtain ⟨hcompound, hsimple⟩ := not_mem_words_of_isIdentifier hfield
    have hword : Word.read? (field.toList ++ ':' :: ' ' :: (type.chars ++ t)) =
        some (field.toList, ':' :: ' ' :: (type.chars ++ t)) := Word.read?_append (isWord_of_isIdentifier hfield) rfl
    have hyield := hlegible.after? (t := ':' :: ' ' :: (type.chars ++ t)) rfl (show "yield" ∈ expressionWords by decide)
      (by decide)
    have hleads : ({ Place.lineAt 4 with opening := .statement } : Place).Leads Place.closes
        (':' :: ' ' :: (type.chars ++ t)) := .mark (by decide) (by simp [Place.closes])
    have htyped := hr.type type htype (by omega) { Place.lineAt 4 with opening := .statement } t (.lineBreak rfl ht)
      (Place.after?_lineBreak rfl ht ':')
    rw [has, Reading.Gives] at htyped
    have hassign := assignment_typed field htype htyped (Place.after?_lineBreak rfl ht '=')
    have hstatement := expressionStatement_of_operand (r := r) (p := Place.lineAt 4) false hyield
      (hr.name hname hleads) rfl (hr.expression (.name field) hlegible (by simp [Expr.chars]; omega) _ _ _ hleads)
      (Place.mark?_other (by decide) (by decide))
    have htext : (field.toList ++ ':' :: ' ' :: type.chars) ++ t = field.toList ++ ':' :: ' ' :: (type.chars ++ t) := by
      simp
    refine statement_of_simpleStatement ?_ ?_ ht
    · rw [htext]
      exact compound?_of_word hword (by simpa using hcompound)
    · rw [htext, simpleStatement_of_word hword (by simpa using hsimple)]
      exact hstatement.trans (by simp [hassign])

/-- A `return` with a value is a line. -/
theorem readsLine_return (hr : r.Covers length) {value : Expr} (hvalue : value.Legible)
    (hlength : value.chars.length ≤ length) :
    r.ReadsLine ("return ".toList ++ value.chars) (.result (some value)) := by
  have htext : ∀ t, ("return ".toList ++ value.chars) ++ t = "return".toList ++ ' ' :: (value.chars ++ t) := fun t => rfl
  refine ⟨fun t => rfl, fun {t start column} ht => ?_⟩
  have hword : Word.read? ("return".toList ++ ' ' :: (value.chars ++ t)) =
      some ("return".toList, ' ' :: (value.chars ++ t)) := Word.read?_append (by decide) rfl
  have hread := hr.expression value hvalue hlength (Place.lineAt 4) Level.lowest t (.lineBreak rfl ht)
  have hgiven : r.given (Place.lineAt 4) (value.chars ++ t) = some (⟨[value.operand], false, false⟩, t) :=
    expressionsUntil_of_read (Word.opens "from") hread (Place.mark?_lineBreak rfl ht ',')
  have hreturned : r.returned (Place.lineAt 4) (' ' :: (value.chars ++ t)) = (.result (some value), t) := by
    simp [returned, Place.token?_blank (hvalue.startsToken t), hgiven]
  refine statement_of_simpleStatement ?_ ?_ ht
  · rw [htext]
    exact compound?_of_word hword (by decide)
  · rw [htext, simpleStatement, hword]
    exact (if_pos (String.ofList_toList)).trans (congrArg some hreturned)

/-! ## Blocks -/

/-- The text of lines, each behind the end of a line and at the fourth column. -/
def blockText (lines : List (List Char × Item)) : List Char := lines.flatMap fun l => "\n    ".toList ++ l.1

theorem length_le_length_blockText (lines : List (List Char × Item)) : lines.length ≤ (blockText lines).length := by
  induction lines with
  | nil => simp
  | cons l lines ih =>
    simp only [blockText, List.flatMap_cons, List.length_cons, List.length_append] at ih ⊢
    have hnewline : "\n    ".toList.length = 5 := rfl
    omega

theorem length_le_blockText {lines : List (List Char × Item)} {l : List Char × Item} (hl : l ∈ lines) :
    l.1.length ≤ (blockText lines).length := by
  obtain ⟨before, behind, rfl⟩ := List.append_of_mem hl
  simp only [blockText, List.flatMap_append, List.flatMap_cons, List.length_append]
  omega

/-- What lines are as statements. -/
def pieces (lines : List (List Char × Item)) : List Piece := lines.map fun l => ⟨l.2, String.ofList l.1⟩

variable {lines : List (List Char × Item)} {rest start : List Char}

theorem lineBreak_blockText (hlines : ∀ l ∈ lines, r.ReadsLine l.1 l.2) (hrest : LineBreak rest 0 start) :
    ∃ column start, LineBreak (blockText lines ++ rest) column start := by
  cases lines with
  | nil => exact ⟨0, start, hrest⟩
  | cons l lines =>
    have hl := (hlines l List.mem_cons_self).starts (blockText lines ++ rest)
    exact ⟨4, l.1 ++ (blockText lines ++ rest), by simpa [blockText] using LineBreak.inner hl⟩

/-- One more line of a block. -/
theorem blockFrom_line {cs text : List Char} {item : Item} {more : List Piece} {fuel column : Nat}
    (hread : Layout.read ⟨false, true, false, false, true, false⟩ 4 false cs = ⟨[], .token (text ++ t)⟩)
    (hline : r.ReadsLine text item) (ht : LineBreak t column start)
    (hmore : r.blockFrom 4 fuel t = some (more, rest)) :
    r.blockFrom 4 (fuel + 1) cs = some (⟨item, String.ofList text⟩ :: more, rest) := by
  simp [blockFrom, hread, hline.reads ht, hmore]

/-- Lines are read one by one, up to a token at the left edge or the end of the text. -/
theorem blockFrom_blockText (hlines : ∀ l ∈ lines, r.ReadsLine l.1 l.2) (hrest : LineBreak rest 0 start) {fuel : Nat}
    (hfuel : lines.length < fuel) : r.blockFrom 4 fuel (blockText lines ++ rest) = some (pieces lines, rest) := by
  induction lines generalizing fuel with
  | nil =>
    obtain ⟨fuel, rfl⟩ := Nat.exists_eq_add_one.2 (Nat.zero_lt_of_lt hfuel)
    have hread : Layout.read ⟨false, true, false, false, true, false⟩ 4 false rest = ⟨[], .dedent rest⟩ :=
      Layout.readFrom_of_boundary (hrest.margin _) (by simp [Layout.boundary?])
    simp [blockText, pieces, blockFrom, hread]
  | cons l lines ih =>
    obtain ⟨fuel, rfl⟩ := Nat.exists_eq_add_one.2 (Nat.zero_lt_of_lt hfuel)
    obtain ⟨hl, hls⟩ := List.forall_mem_cons.1 hlines
    obtain ⟨column, next, hbreak⟩ := lineBreak_blockText hls hrest
    have hstarts := hl.starts (blockText lines ++ rest)
    have hread : Layout.read ⟨false, true, false, false, true, false⟩ 4 false (blockText (l :: lines) ++ rest) =
        ⟨[], .token (l.1 ++ (blockText lines ++ rest))⟩ := by
      have htext : blockText (l :: lines) ++ rest =
          '\n' :: ' ' :: ' ' :: ' ' :: ' ' :: (l.1 ++ (blockText lines ++ rest)) := by simp [blockText]
      rw [htext]
      exact (LineBreak.inner hstarts).read_token hstarts rfl fun _ => rfl
    exact blockFrom_line hread hl hbreak (ih hls (by simpa using hfuel))

/-- **A block behind a colon** is read line by line. -/
theorem suiteRule_blockText {l : List Char × Item} (hlines : ∀ x ∈ l :: lines, r.ReadsLine x.1 x.2)
    (hrest : LineBreak rest 0 start) :
    r.suiteRule 0 (blockText (l :: lines) ++ rest) = some (pieces (l :: lines), rest) := by
  obtain ⟨hl, hls⟩ := List.forall_mem_cons.1 hlines
  obtain ⟨column, next, hbreak⟩ := lineBreak_blockText hls hrest
  have hstarts := hl.starts (blockText lines ++ rest)
  have htext : blockText (l :: lines) ++ rest = '\n' :: ' ' :: ' ' :: ' ' :: ' ' :: (l.1 ++ (blockText lines ++ rest)) := by
    simp [blockText]
  have hinner := LineBreak.inner hstarts
  rw [htext]
  have hindent : Layout.read ⟨true, false, true, false, true, false⟩ 0 false
      ('\n' :: ' ' :: ' ' :: ' ' :: ' ' :: (l.1 ++ (blockText lines ++ rest))) =
        ⟨[], .indent 4 ('\n' :: ' ' :: ' ' :: ' ' :: ' ' :: (l.1 ++ (blockText lines ++ rest)))⟩ :=
    Layout.readFrom_of_boundary (hinner.margin _) (by simp [Layout.boundary?])
  have hread : Layout.read ⟨false, true, false, false, true, true⟩ 4 false
      ('\n' :: ' ' :: ' ' :: ' ' :: ' ' :: (l.1 ++ (blockText lines ++ rest))) =
        ⟨[], .token (l.1 ++ (blockText lines ++ rest))⟩ := hinner.read_token hstarts rfl fun _ => rfl
  have hnext : nextStatement 4 ('\n' :: ' ' :: ' ' :: ' ' :: ' ' :: (l.1 ++ (blockText lines ++ rest))) =
      some (l.1 ++ (blockText lines ++ rest)) := by
    simp [nextStatement, hread]
  have hlength := length_le_length_blockText lines
  have hmore : r.blockFrom 4 ((l.1 ++ (blockText lines ++ rest)).length + 5) (blockText lines ++ rest) =
      some (pieces lines, rest) := blockFrom_blockText hls hrest (by
    simp only [List.length_append]
    omega)
  have hblock := blockFrom_line (Layout.read_of_startsToken hstarts fun _ => rfl) hl hbreak hmore
  simpa [suiteRule, hindent, hnext, pieces] using hblock

end Rules
end PluginTools
