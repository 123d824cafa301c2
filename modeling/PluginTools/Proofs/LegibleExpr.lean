/-
Legible expressions: those whose own text reads back. Operators are written without parentheses, so a legible
operator has operands that bind at least as tight as it reads them: `tightness` is the level of an expression as
an operand. Here is what the text of a legible expression starts with, and what operand it is to a reader.
-/
import PluginTools.Proofs.PlainExpr
import PluginTools.Source.Operator

namespace PluginTools

/-! ## Names -/

/-- Words that are no names in an expression. -/
def expressionWords : List String := ["True", "False", "None", "not", "lambda", "yield", "await"]

def isOperandName (id : String) : Bool := Word.isWord id.toList && !expressionWords.contains id

theorem isWord_of_isOperandName {id : String} (h : isOperandName id) : Word.isWord id.toList := by
  simp only [isOperandName, Bool.and_eq_true] at h
  exact h.1

theorem toList_ne_of_isOperandName {id word : String} (h : isOperandName id) (hword : word ∈ expressionWords) :
    id.toList ≠ word.toList := by
  simp only [isOperandName, Bool.and_eq_true, Bool.not_eq_true', List.contains_eq_mem, decide_eq_false_iff_not] at h
  intro he
  exact h.2 (String.toList_inj.1 he ▸ hword)

theorem isOperandName_of_isIdentifier {id : String} (h : isIdentifier id) : isOperandName id := by
  have hall : ∀ word ∈ expressionWords, word ∈ reservedWords := by decide
  have hnot : id ∉ expressionWords := fun hmem => not_reserved_of_isIdentifier h (hall id hmem)
  simp [isOperandName, isWord_of_isIdentifier h, hnot]

/-! ## Numbers -/

namespace Double

/-- Whether the number is written with a minus sign. -/
def isNegative : Double → Bool
  | .infinite negative | .finite negative _ _ => negative
  | .nan => false

/-- The number without its sign. -/
def magnitude : Double → Double
  | .nan => .nan
  | .infinite _ => .infinite false
  | .finite _ m q => .finite false m q

/-- A number is read back from its text, which is of digits and a point and starts with a digit. -/
structure ReadsBack (d : Double) : Prop where
  digit : ∃ c cs, d.literalText = c :: cs ∧ Number.isDigit c
  point : '.' ∈ d.literalText
  plain : ∀ c ∈ d.literalText, Number.isDigit c ∨ c = '.'
  reads : ∀ {rest : List Char}, Layout.endsWord rest → Numeral.read? (d.literalText ++ rest) = some (.literal (.float d), rest)

theorem literalText_of_isNegative {d : Double} (h : d.isNegative) : d.literalText = '-' :: d.magnitude.literalText := by
  cases d with
  | nan => cases h
  | infinite negative =>
    obtain rfl : negative = true := h
    rfl
  | finite negative m q =>
    obtain rfl : negative = true := h
    have hwhole : (Double.finite true m q).whole? = (Double.finite false m q).whole? := rfl
    have hplain : (Double.finite true m q).plainText = '-' :: (Double.finite false m q).plainText := rfl
    simp only [literalText, magnitude, hwhole, hplain]
    split
    · split <;> rfl
    · rfl

theorem magnitude_of_not_isNegative {d : Double} (h : d.isNegative = false) : d.magnitude = d := by
  cases d with
  | nan => rfl
  | infinite negative | finite negative =>
    obtain rfl : negative = false := h
    rfl

theorem point_mem_magnitude (d : Double) : '.' ∈ d.magnitude.literalText ↔ '.' ∈ d.literalText := by
  cases hneg : d.isNegative with
  | false => rw [magnitude_of_not_isNegative hneg]
  | true => simp [literalText_of_isNegative hneg]

theorem isNegative_magnitude (d : Double) : d.magnitude.isNegative = false := by cases d <;> rfl

theorem neg_magnitude {d : Double} (h : d.isNegative) : d.magnitude.neg = d := by
  cases d with
  | nan => cases h
  | infinite negative | finite negative =>
    obtain rfl : negative = true := h
    rfl

end Double

/-! ## Operators -/

namespace Level

/-- An operand with no operator in it. -/
def operand : Int := 22

/-- What the right operand of an operator binds tighter than. -/
def right (level : Int) : Int := if level = power then unary else level

/-- What the left operand of an operator binds at least as tight as. -/
def left (level : Int) : Int := if level = power then operand else level

/-- The level up to which operators behind an expression leave it whole. -/
def behind (tight : Int) : Int := if operand ≤ tight then power else min tight unary

variable {level tight : Int}

theorem le_behind (hle : level ≤ unary) (h : level < tight) : level ≤ behind tight := by
  unfold behind unary power at *
  split <;> omega

theorem le_left (level : Int) : level ≤ left level := by
  unfold left operand power at *
  split <;> omega

theorem le_behind_left (hle : level ≤ power) (h : left level ≤ tight) : level ≤ behind tight := by
  unfold left behind operand unary power at *
  split at h <;> split <;> omega

theorem right_le (hle : level ≤ power) : right level ≤ unary := by
  unfold right unary power at *
  split <;> omega

/-- An operator whose right operand does not end before a level is a left operand at that level. -/
theorem left_le_of_not_right_lt {other : Int} (hle : other ≤ power) (h : ¬right other < level) : left level ≤ other := by
  unfold left right operand unary power at *
  split at h <;> split <;> omega

/-- A left operand at a level ends before it. -/
theorem not_right_lt_of_left_le {other : Int} (hle : other ≤ power) (h : left level ≤ other) : ¬right other < level := by
  unfold left right operand unary power at *
  split at h <;> split <;> omega

theorem behind_eq_right (hle : level ≤ power) : behind level = right level := by
  unfold behind right operand unary power at *
  split <;> omega

end Level

namespace Expr

/-- The operators that join operands, with their levels. -/
def operators : List (String × Int) :=
  [("**", Level.power), ("*", 19), ("/", 19), ("//", 19), ("%", 19), ("@", 19), ("+", 18), ("-", 18), ("<<", 17),
    (">>", 17), ("^", 16), ("&", 15), ("|", 14)]

def isOperator (operator : String) : Bool := (operators.lookup operator).isSome

def levelOf (operator : String) : Int := (operators.lookup operator).getD Level.lowest

/-- What an operator starts with. -/
def operatorMarks : List Char := ['*', '/', '%', '@', '+', '-', '<', '>', '^', '&', '|']

/-- What holds of each operator in the list holds of every operator. -/
theorem forall_operator {P : String → Int → Prop} (h : ∀ o ∈ operators, P o.1 o.2) {operator : String}
    (hop : isOperator operator) : P operator (levelOf operator) := by
  obtain ⟨level, hlevel⟩ := Option.isSome_iff_exists.1 hop
  have hmem : (operator, level) ∈ operators := by
    obtain ⟨before, after, hsplit, -⟩ := List.lookup_eq_some_iff.1 hlevel
    simp [hsplit]
  simpa [levelOf, hlevel] using h _ hmem

theorem levelOf_bounds {operator : String} (hop : isOperator operator) : 14 ≤ levelOf operator ∧ levelOf operator ≤ 21 :=
  forall_operator (P := fun _ level => 14 ≤ level ∧ level ≤ 21) (by decide) hop

theorem operator_cons {operator : String} (hop : isOperator operator) :
    ∃ c cs, operator.toList = c :: cs ∧ c ∈ operatorMarks := by
  have hall : ∀ o ∈ operators, ∃ c cs, o.1.toList = c :: cs ∧ c ∈ operatorMarks := by
    simp only [operators, List.forall_mem_cons, List.not_mem_nil, false_implies, implies_true, and_true]
    refine ⟨?_, ?_, ?_, ?_, ?_, ?_, ?_, ?_, ?_, ?_, ?_, ?_, ?_⟩ <;> exact ⟨_, _, rfl, by decide⟩
  exact forall_operator (P := fun o _ => ∃ c cs, o.toList = c :: cs ∧ c ∈ operatorMarks) hall hop

theorem isMark_of_mem_operatorMarks {c : Char} (hc : c ∈ operatorMarks) : Layout.isMark c := by
  have hall : operatorMarks.all Layout.isMark := by decide
  exact List.all_eq_true.1 hall c hc

/-- An operator with a blank behind it is read as itself. -/
theorem arithmetic?_operator {operator : String} (hop : isOperator operator) (cs : List Char) :
    Rules.arithmetic? (operator.toList ++ ' ' :: cs) = some (operator, levelOf operator, ' ' :: cs) := by
  have hall : ∀ o ∈ operators, Rules.arithmetic? (o.1.toList ++ ' ' :: cs) = some (o.1, o.2, ' ' :: cs) := by
    simp only [operators, List.forall_mem_cons, List.not_mem_nil, false_implies, implies_true, and_true]
    refine ⟨?_, ?_, ?_, ?_, ?_, ?_, ?_, ?_, ?_, ?_, ?_, ?_, ?_⟩ <;> rfl
  exact forall_operator (P := fun o level => Rules.arithmetic? (o.toList ++ ' ' :: cs) = some (o, level, ' ' :: cs)) hall hop

/-! ## Legible expressions -/

def isNumber : Expr → Bool
  | .literal (.int _) | .literal (.float _) => true
  | _ => false

/-- Whether the text starts with a minus sign that belongs to all of it. -/
def isSigned : Expr → Bool
  | .literal (.int i) => decide (i < 0)
  | .literal (.float d) => d.isNegative
  | .verbatim kind _ => kind == "unary_operator"
  | _ => false

/-- How tight an expression binds as an operand. -/
def tightness : Expr → Int
  | .binary _ operator _ => levelOf operator
  | e => if e.isSigned then Level.power else Level.operand

/-- Whether attributes, brackets and parentheses behind the expression belong to it. -/
def isBase : Expr → Bool
  | .literal (.text _) | .tuple _ | .list _ => true
  | e => e.isHead

/-- The expression with a minus sign that no number takes in. -/
def signed (e : Expr) : Expr := .verbatim "unary_operator" (String.ofList ('-' :: e.chars))

theorem chars_signed (e : Expr) : e.signed.chars = '-' :: e.chars := by simp [signed, chars]

/-- The expressions whose own text reads back. -/
inductive Legible : Expr → Prop
  | name {id : String} (hid : isOperandName id) : Legible (.name id)
  | text (s : String) : Legible (.text s)
  | int {i : Int} (hlow : -2 ^ 63 < i) (hhigh : i < 2 ^ 63) : Legible (.literal (.int i))
  | large {n : Nat} (hn : Numeral.maxInt < n) : Legible (.verbatim "integer" (String.ofList (Nat.toDigits 10 n)))
  | float {d : Double} (hd : d.magnitude.ReadsBack) : Legible (.literal (.float d))
  | bool (b : Bool) : Legible (.literal (.bool b))
  | none : Legible (.literal .none)
  | signed {e : Expr} (he : Legible e) (htight : Level.unary < e.tightness) (hnumber : e.isNumber = false) :
    Legible e.signed
  | member {value : Expr} {field : String} (hvalue : Legible value) (hbase : value.isBase)
    (hfield : Word.isWord field.toList) : Legible (.attribute value field)
  | subscript {value slice : Expr} (hvalue : Legible value) (hbase : value.isBase)
    (hslice : ∀ x ∈ slice.indices, Legible x) (hpair : ∀ x, slice ≠ .tuple [x]) : Legible (.subscript value slice)
  | call {function : Expr} {arguments : List Expr} {keywords : List (String × Expr)} (hfunction : Legible function)
    (hbase : function.isBase) (harguments : ∀ x ∈ arguments, Legible x) (hnames : ∀ k ∈ keywords, isOperandName k.1)
    (hkeywords : ∀ k ∈ keywords, Legible k.2) : Legible (.call function arguments keywords)
  | tuple {items : List Expr} (hitems : ∀ x ∈ items, Legible x) : Legible (.tuple items)
  | list {items : List Expr} (hitems : ∀ x ∈ items, Legible x) : Legible (.list items)
  | binary {left right : Expr} {operator : String} (hleft : Legible left) (hright : Legible right)
    (hop : isOperator operator) (hl : Level.left (levelOf operator) ≤ left.tightness)
    (hr : Level.right (levelOf operator) < right.tightness) : Legible (.binary left operator right)

theorem isBase_of_isHead {e : Expr} (h : e.isHead) : e.isBase := by
  cases e <;> first | rfl | cases h

theorem tightness_of_not_isBinary {e : Expr} (h : e.isBinary = false) :
    e.tightness = if e.isSigned then Level.power else Level.operand := by
  cases e <;> first | rfl | cases h

/-- What is no operator binds tighter than every operator but a power. -/
theorem power_le_tightness {e : Expr} (h : e.isBinary = false) : Level.power ≤ e.tightness := by
  rw [tightness_of_not_isBinary h]
  split <;> decide

theorem tightness_of_not_isSigned {e : Expr} (hbinary : e.isBinary = false) (h : e.isSigned = false) :
    e.tightness = Level.operand := by
  simp [tightness_of_not_isBinary hbinary, h]

/-- Operators bind tighter than comparisons. -/
theorem Legible.comparison_lt {e : Expr} (h : Legible e) : Level.comparison < e.tightness := by
  cases hbinary : e.isBinary with
  | false => exact Int.lt_of_lt_of_le (by decide) (power_le_tightness hbinary)
  | true =>
    cases h with
    | binary _ _ hop => exact Int.lt_of_lt_of_le (by decide) (levelOf_bounds hop).1
    | _ => cases hbinary

/-- Plain expressions are legible. -/
theorem Plain.legible {e : Expr} (h : Plain e) : Legible e := by
  induction h with
  | name hid => exact .name (isOperandName_of_isIdentifier hid)
  | text s => exact .text s
  | int hlow hhigh => exact .int hlow hhigh
  | bool b => exact .bool b
  | none => exact .none
  | member _ hhead hfield ih => exact .member ih (isBase_of_isHead hhead) (isWord_of_isIdentifier hfield)
  | subscript _ hhead _ hpair ih ihs => exact .subscript ih (isBase_of_isHead hhead) ihs hpair
  | call _ hhead _ hnames _ ih ihx ihk =>
    exact .call ih (isBase_of_isHead hhead) ihx (fun k hk => isOperandName_of_isIdentifier (hnames k hk)) ihk
  | tuple _ ih => exact .tuple ih
  | list _ ih => exact .list ih
  | union _ _ hl hr ihl ihr =>
    have hlt : (14 : Int) < Level.power := by decide
    refine .binary ihl ihr (by decide) ?_ ?_
    · exact Int.le_trans (by decide) (power_le_tightness hl)
    · exact Int.lt_of_lt_of_le (by decide) (power_le_tightness hr)

/-! ## The start of the text -/

/-- Whether the text starts with a name and a bracket, as a type of a form of its own does. -/
def startsType : Expr → Bool
  | .subscript (.name id) _ => !Rules.isTypeReserved id.toList
  | .subscript value _ | .attribute value _ => value.startsType
  | .call function _ _ => function.startsType
  | .binary left _ _ => left.startsType
  | _ => false

/-- What may stand behind the first word of an expression, and whether it is a bracket. -/
inductive Continues : Bool → List Char → Prop
  | nil : Continues false []
  | mark {c : Char} (hc : c = '.' ∨ c = '(') (cs : List Char) : Continues false (c :: cs)
  | bracket (cs : List Char) : Continues true ('[' :: cs)
  | operator {c : Char} (hc : c ∈ operatorMarks) (cs : List Char) : Continues false (' ' :: c :: cs)

/-- What an expression starts with: a mark or a digit, a constant, or a name, and in the last case whether
a bracket stands behind it and makes it a type of a form of its own. -/
inductive Lead : Bool → List Char → Prop
  | mark {c : Char} (hc : c ∈ ['\x27', '\x22', '-', '(', '['] ∨ Number.isDigit c) (cs : List Char) : Lead false (c :: cs)
  | constant {word : String} (hword : word ∈ ["True", "False", "None"]) {post : List Char}
    (hpost : Continues false post) : Lead false (word.toList ++ post)
  | name {id : String} (hid : isOperandName id) {bracket : Bool} {post : List Char} (hpost : Continues bracket post) :
    Lead (bracket && !Rules.isTypeReserved id.toList) (id.toList ++ post)

/-- What an expression starts with, other than a word, opens no word. -/
theorem not_isOpening_of_mark {c : Char} (hc : c ∈ ['\x27', '\x22', '-', '(', '['] ∨ Number.isDigit c) :
    Word.isOpening c = false := by
  rcases hc with hc | hc
  · have hall : ['\x27', '\x22', '-', '(', '['].all (!Word.isOpening ·) := by decide
    simpa using List.all_eq_true.1 hall c hc
  · exact Number.not_isOpening_of_isDigit hc

theorem Continues.operator_append {bracket : Bool} {post : List Char} (h : Continues bracket post) {c : Char}
    (hc : c ∈ operatorMarks) (t : List Char) : Continues bracket (post ++ ' ' :: c :: t) := by
  cases h with
  | nil => exact .operator hc t
  | mark hd cs => exact .mark hd _
  | bracket cs => exact .bracket _
  | operator hd cs => exact .operator hd _

theorem Continues.endsWord {bracket : Bool} {post t : List Char} (h : Continues bracket post)
    (ht : Layout.endsWord t) : Layout.endsWord (post ++ t) := by
  cases h with
  | nil => exact ht
  | mark hc => rcases hc with rfl | rfl <;> rfl
  | bracket => rfl
  | operator => rfl

theorem Lead.operator_append {generic : Bool} {cs : List Char} (h : Lead generic cs) {c : Char}
    (hc : c ∈ operatorMarks) (t : List Char) : Lead generic (cs ++ ' ' :: c :: t) := by
  cases h with
  | mark hd => exact .mark hd _
  | constant hword hpost =>
    rw [List.append_assoc]
    exact .constant hword (hpost.operator_append hc t)
  | name hid hpost =>
    rw [List.append_assoc]
    exact .name hid (hpost.operator_append hc t)

/-- Digits start with a digit. -/
theorem toDigits_cons (n : Nat) : ∃ c cs, Nat.toDigits 10 n = c :: cs ∧ Number.isDigit c := by
  obtain ⟨c, cs, htext⟩ := List.exists_cons_of_ne_nil (Nat.toDigits_ne_nil (n := n) (b := 10))
  exact ⟨c, cs, htext, Number.isDigit_of_mem_toDigits (htext ▸ List.mem_cons_self)⟩

theorem startsType_subscript {value : Expr} (h : value.name? = Option.none) (slice : Expr) :
    (Expr.subscript value slice).startsType = value.startsType := by
  cases value <;> first | rfl | cases h

theorem eq_name_of_name? {e : Expr} {id : String} (h : e.name? = some id) : e = .name id := by
  cases e <;> cases h
  rfl

/-- What a base other than a name starts with does not depend on what stands behind it. -/
theorem Legible.lead_append {e : Expr} (h : Legible e) (hbase : e.isBase) (hname : e.name? = Option.none)
    (t : List Char) : Lead e.startsType (e.chars ++ t) := by
  induction h generalizing t with
  | name => cases hname
  | text s =>
    refine .mark (.inl ?_) _
    rcases Quoted.quoteFor_eq s.toList with hm | hm <;> simp [hm]
  | @member value field hvalue hb _ ih =>
    have htext : (Expr.attribute value field).chars ++ t = value.chars ++ '.' :: (field.toList ++ t) := by simp [chars]
    rw [htext]
    cases hid : value.name? with
    | none => exact ih hb hid _
    | some id =>
      obtain rfl := eq_name_of_name? hid
      cases hvalue with
      | name hid => exact .name hid (.mark (.inl rfl) _)
  | @subscript value slice hvalue hb _ _ ih =>
    rw [chars_subscript, List.append_assoc]
    cases hid : value.name? with
    | none =>
      rw [startsType_subscript hid]
      exact ih hb hid _
    | some id =>
      obtain rfl := eq_name_of_name? hid
      cases hvalue with
      | name hid => exact .name hid (.bracket _)
  | @call function arguments keywords hfunction hb _ _ _ ih =>
    rw [chars_call, List.append_assoc]
    cases hid : function.name? with
    | none => exact ih hb hid _
    | some id =>
      obtain rfl := eq_name_of_name? hid
      cases hfunction with
      | name hid => exact .name hid (.mark (.inr rfl) _)
  | @tuple items =>
    rcases items with _ | ⟨x, _ | ⟨y, ys⟩⟩ <;> exact .mark (.inl (by simp)) _
  | list => exact .mark (.inl (by simp)) _
  | _ => cases hbase

theorem Legible.lead {e : Expr} (h : Legible e) : Lead e.startsType e.chars := by
  have hbase : ∀ {e : Expr}, Legible e → e.isBase → e.name? = Option.none → Lead e.startsType e.chars :=
    fun he hb hname => by simpa using he.lead_append hb hname []
  induction h with
  | @name id hid =>
    have hlead := Lead.name hid .nil
    rwa [List.append_nil] at hlead
  | @int i =>
    obtain ⟨c, cs, htext, hc⟩ := toDigits_cons i.toNat
    rw [chars_int]
    split
    · exact htext ▸ .mark (.inr hc) cs
    · exact .mark (.inl (by simp)) _
  | @large n =>
    obtain ⟨c, cs, htext, hc⟩ := toDigits_cons n
    rw [chars, String.toList_ofList, htext]
    exact .mark (.inr hc) cs
  | @float d hd =>
    obtain ⟨c, cs, htext, hc⟩ := hd.digit
    rw [chars, Literal.chars]
    cases hneg : d.isNegative with
    | true => exact d.literalText_of_isNegative hneg ▸ .mark (.inl (by simp)) _
    | false =>
      rw [Double.magnitude_of_not_isNegative hneg] at htext
      exact htext ▸ .mark (.inr hc) cs
  | bool b =>
    cases b
    · exact @Lead.constant "False" (by simp) [] .nil
    · exact @Lead.constant "True" (by simp) [] .nil
  | none => exact @Lead.constant "None" (by simp) [] .nil
  | @signed x =>
    have htext : x.signed.chars = '-' :: x.chars := by simp [Expr.signed, chars]
    exact htext ▸ .mark (.inl (by simp)) _
  | text s => exact hbase (.text s) rfl rfl
  | member hv hb hf => exact hbase (.member hv hb hf) rfl rfl
  | subscript hv hb hs hp => exact hbase (.subscript hv hb hs hp) rfl rfl
  | call hv hb ha hn hk => exact hbase (.call hv hb ha hn hk) rfl rfl
  | tuple hitems => exact hbase (.tuple hitems) rfl rfl
  | list hitems => exact hbase (.list hitems) rfl rfl
  | @binary left right operator _ _ hop _ _ ih =>
    obtain ⟨c, cs, htext, hc⟩ := operator_cons hop
    have htext : (Expr.binary left operator right).chars = left.chars ++ ' ' :: c :: (cs ++ ' ' :: right.chars) := by
      simp [chars, htext]
    rw [htext]
    exact ih.operator_append hc _

/-- Whether an expression may start with the character. -/
def isLead (c : Char) : Bool := ['\x27', '\x22', '-', '(', '['].contains c || Number.isDigit c || Word.isOpening c

theorem Lead.head {generic : Bool} {cs : List Char} (h : Lead generic cs) : ∃ c ds, cs = c :: ds ∧ isLead c := by
  have hword : ∀ {w : List Char}, Word.isWord w → ∀ post, ∃ c ds, w ++ post = c :: ds ∧ isLead c := by
    intro w hw post
    cases w with
    | nil => cases hw
    | cons c w =>
      simp only [Word.isWord, Bool.and_eq_true] at hw
      exact ⟨c, w ++ post, rfl, by simp [isLead, hw.1]⟩
  cases h with
  | mark hc cs =>
    refine ⟨_, cs, rfl, ?_⟩
    rcases hc with hc | hc
    · simp [isLead, List.contains_eq_mem, hc]
    · simp [isLead, hc]
  | @constant word hc post =>
    refine hword ?_ post
    revert word
    decide
  | name hid => exact hword (isWord_of_isOperandName hid) _

theorem startsToken_of_isLead {c : Char} (h : isLead c) (cs : List Char) : Layout.startsToken (c :: cs) := by
  simp only [isLead, Bool.or_eq_true] at h
  rcases h with (h | h) | h
  · have hall : ['\x27', '\x22', '-', '(', '['].all fun d => Layout.startsToken [d] := by decide
    exact List.all_eq_true.1 hall c (by simpa using h)
  · have hall : ∀ n < 58, Number.isDigit (Char.ofNat n) → Layout.startsToken [Char.ofNat n] := by decide
    obtain ⟨n, hn, rfl⟩ := Number.ofNat_of_isDigit h
    exact hall n hn h
  · exact Layout.startsToken_of_isOpening h cs

section
variable {e : Expr}

theorem Legible.startsToken (h : Legible e) (t : List Char) : Layout.startsToken (e.chars ++ t) := by
  obtain ⟨c, cs, htext, hc⟩ := h.lead.head
  rw [htext]
  exact startsToken_of_isLead hc _

theorem Legible.head?_ne (h : Legible e) {c : Char} (hc : isLead c = false) (t : List Char) :
    (e.chars ++ t).head? ≠ some c := by
  obtain ⟨d, cs, htext, hd⟩ := h.lead.head
  rw [htext]
  rintro he
  simp only [List.cons_append, List.head?_cons, Option.some.injEq] at he
  simp [← he, hd] at hc

theorem not_isNumber_of_isBase (h : e.isBase) : e.isNumber = false := by
  cases e with
  | literal l => cases l <;> first | rfl | cases h
  | _ => rfl

theorem not_isSigned_of_isBase (h : e.isBase) : e.isBinary = false ∧ e.isSigned = false := by
  cases e with
  | literal l => cases l <;> first | exact ⟨rfl, rfl⟩ | cases h
  | _ => first | exact ⟨rfl, rfl⟩ | cases h

/-- Only a signed operand starts with a minus sign. -/
theorem Legible.head?_ne_minus (h : Legible e) (hbinary : e.isBinary = false) (hsigned : e.isSigned = false)
    (t : List Char) : (e.chars ++ t).head? ≠ some '-' := by
  have hdigit : ∀ {c : Char} {cs t : List Char}, Number.isDigit c → (c :: cs ++ t).head? ≠ some '-' := by
    intro c cs t hc he
    simp only [List.cons_append, List.head?_cons, Option.some.injEq] at he
    exact absurd (he ▸ hc) (by decide)
  induction h generalizing t with
  | name hid => exact Word.head?_append_ne (isWord_of_isOperandName hid) (by decide) t
  | text s =>
    have hmark : Quoted.quoteFor s.toList ≠ '-' := by
      rcases Quoted.quoteFor_eq s.toList with h | h <;> rw [h] <;> decide
    exact fun he => hmark (Option.some.inj he)
  | @int i =>
    obtain ⟨c, cs, htext, hc⟩ := toDigits_cons i.toNat
    have hi : 0 ≤ i := by simpa [isSigned] using hsigned
    rw [chars_int, if_pos hi, htext]
    exact hdigit hc
  | @large n =>
    obtain ⟨c, cs, htext, hc⟩ := toDigits_cons n
    rw [chars, String.toList_ofList, htext]
    exact hdigit hc
  | @float d hd =>
    obtain ⟨c, cs, htext, hc⟩ := hd.digit
    rw [Double.magnitude_of_not_isNegative hsigned] at htext
    rw [chars, Literal.chars, htext]
    exact hdigit hc
  | bool b => cases b <;> exact Word.head?_append_ne (by decide) (by decide) t
  | none => exact Word.head?_append_ne (by decide) (by decide) t
  | signed => cases hsigned
  | @member value field _ hbase _ ih =>
    obtain ⟨hb, hs⟩ := not_isSigned_of_isBase hbase
    rw [chars, List.append_assoc]
    exact ih hb hs _
  | @subscript value slice _ hbase _ _ ih =>
    obtain ⟨hb, hs⟩ := not_isSigned_of_isBase hbase
    rw [chars_subscript, List.append_assoc]
    exact ih hb hs _
  | @call function arguments keywords _ hbase _ _ _ ih =>
    obtain ⟨hb, hs⟩ := not_isSigned_of_isBase hbase
    rw [chars_call, List.append_assoc]
    exact ih hb hs _
  | @tuple items =>
    have hopen : (Expr.tuple items).chars.head? = some '(' := by
      rcases items with _ | ⟨x, _ | ⟨y, ys⟩⟩ <;> rfl
    simp [List.head?_append, hopen]
  | list => simp [chars]
  | binary => cases hbinary

/-- An expression opens with no keyword but a constant. -/
theorem Legible.after? (h : Legible e) {t : List Char} (ht : Layout.endsWord t) {word : String}
    (hword : word ∈ expressionWords) (hconstant : word ∉ ["True", "False", "None"]) :
    Word.after? word (e.chars ++ t) = Option.none := by
  have hlead := h.lead
  generalize e.chars = cs, e.startsType = generic at hlead
  cases hlead with
  | mark hc =>
    exact Word.after?_of_read?_eq_none (Word.read?_of_not_isOpening (not_isOpening_of_mark hc) _) word
  | @constant w hw post hpost =>
    have hwhole : Word.isWord w.toList := by
      revert w
      decide
    have hne : w.toList ≠ word.toList := fun he => hconstant (String.toList_inj.1 he ▸ hw)
    rw [List.append_assoc, Word.after?_append hwhole (hpost.endsWord ht), if_neg hne]
  | @name id hid _ post hpost =>
    rw [List.append_assoc, Word.after?_append (isWord_of_isOperandName hid) (hpost.endsWord ht),
      if_neg (toList_ne_of_isOperandName hid hword)]

end

/-! ## As operands -/

mutual

/-- Whether the expression may be assigned to. -/
def isTarget : Expr → Bool
  | .name _ | .attribute .. | .subscript .. => true
  | .tuple items | .list items => areTargets items
  | _ => false

def areTargets : List Expr → Bool
  | [] => true
  | x :: xs => x.isTarget && areTargets xs

end

/-- The form of the operand that the expression's own text is. -/
def form : Expr → Form
  | .name _ => .name
  | .attribute .. | .subscript .. => .access
  | .tuple items | .list items => if areTargets items then .display !items.isEmpty else .plain
  | _ => .plain

/-- The operand that the expression's own text is. -/
def operand (e : Expr) : Operand := ⟨e, e.form⟩

@[simp] theorem expr_operand (e : Expr) : e.operand.expr = e := rfl

theorem isTarget_operand (e : Expr) : e.operand.isTarget = e.isTarget := by
  cases e with
  | tuple items | list items => cases h : areTargets items <;> simp [operand, form, Operand.isTarget, isTarget, h]
  | _ => rfl

theorem form_cases (e : Expr) : e.form = .name ∨ e.form = .access ∨ (∃ filled, e.form = .display filled) ∨ e.form = .plain := by
  cases e with
  | tuple items | list items => cases h : areTargets items <;> simp [form, h, em]
  | _ => simp [form]

@[simp] theorem isExpression_operand (e : Expr) : e.operand.isExpression = true := by
  rcases e.form_cases with h | h | ⟨_, h⟩ | h <;> simp [operand, Operand.isExpression, h]

@[simp] theorem firstValue_operand (e : Expr) : Rules.firstValue e.operand = e := by
  rcases e.form_cases with h | h | ⟨_, h⟩ | h <;> simp [operand, Rules.firstValue, h]

@[simp] theorem laterValue_operand (e : Expr) : Rules.laterValue e.operand = e := by
  simp [Rules.laterValue]

@[simp] theorem soleValue_operand (e : Expr) : Rules.soleValue e.operand = e := by
  have hsole : Rules.soleValue e.operand = Rules.laterValue e.operand := by
    rcases e.form_cases with h | h | ⟨_, h⟩ | h <;> simp only [operand, Rules.soleValue, h]
  rw [hsole, laterValue_operand]

@[simp] theorem argumentOf_operand (spreads : Bool) (e : Expr) :
    Rules.argumentOf spreads e.operand = .positional e := by
  rcases e.form_cases with h | h | ⟨_, h⟩ | h <;> simp [operand, Rules.argumentOf, h]

theorem formOf_map_operand (xs : List Expr) :
    Rules.formOf (xs.map operand) = if areTargets xs then .display !xs.isEmpty else .plain := by
  have hall : (xs.map operand).all Operand.isTarget = areTargets xs := by
    induction xs with
    | nil => rfl
    | cons x xs ih => simp [areTargets, isTarget_operand, ih]
  simp [Rules.formOf, hall]

/-- What a signed expression is the sign of. -/
theorem Legible.unsigned {e : Expr} (h : Legible e) (hsigned : e.isSigned) : ∃ x, Legible x ∧ Level.unary < x.tightness ∧
    e.chars = '-' :: x.chars ∧ ∀ t, Rules.signed '-' x (e.chars ++ t) t = e.operand := by
  cases h with
  | @int i hlow hhigh =>
    have hi : i < 0 := by simpa [isSigned] using hsigned
    have hx : ¬-i < 0 := by omega
    refine ⟨.literal (.int (-i)), .int (by omega) (by omega), ?_, ?_, fun t => by simp [Rules.signed, operand, form]⟩
    · simp only [tightness, isSigned, hx, decide_false]
      decide
    · rw [chars_int, chars_int, if_neg (by omega), if_pos (by omega)]
  | @float d hd =>
    have hneg : d.isNegative := hsigned
    refine ⟨.literal (.float d.magnitude), .float ?_, ?_, d.literalText_of_isNegative hneg, fun t => ?_⟩
    · rwa [Double.magnitude_of_not_isNegative d.isNegative_magnitude]
    · simp only [tightness, isSigned, Double.isNegative_magnitude]
      decide
    · simp [Rules.signed, Double.neg_magnitude hneg, operand, form]
  | @signed x hx htight hnumber =>
    refine ⟨x, hx, htight, by simp [Expr.signed, chars], fun t => ?_⟩
    have hverbatim : Rules.signed '-' x (x.signed.chars ++ t) t = .verbatim "unary_operator" (x.signed.chars ++ t) t := by
      unfold Rules.signed
      split <;> first | rfl | simp [isNumber] at hnumber
    have htext : x.signed.chars = '-' :: x.chars := by simp [Expr.signed, chars]
    rw [hverbatim, Operand.verbatim, between_append, htext]
    rfl
  | _ => cases hsigned

end Expr
end PluginTools
