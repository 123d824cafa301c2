/-
The records of a generated module. A record is written by its own text, without the blanks at the text's end; the
text of a class with typed fields ends in none, and it is read as that class.
-/
import PluginTools.Proofs.Definitions
import PluginTools.Text.Blank

namespace PluginTools

open Layout (LineBreak startsToken)
open Rules (blockText pieces)

/-! ## The end of a text -/

/-- The text ends in a character that is no white space. -/
def EndsVisibly (cs : List Char) : Prop := ∃ before c, cs = before ++ [c] ∧ Blank.isBlank c = false

namespace Blank

/-- The characters that are white space. -/
def blankCodes : List Nat :=
  [0x09, 0x0a, 0x0b, 0x0c, 0x0d, 0x20, 0x85, 0xa0, 0x1680, 0x2000, 0x2001, 0x2002, 0x2003, 0x2004, 0x2005, 0x2006,
    0x2007, 0x2008, 0x2009, 0x200a, 0x2028, 0x2029, 0x202f, 0x205f, 0x3000]

theorem mem_blankCodes {c : Char} (h : isBlank c) : c.toNat ∈ blankCodes := by
  simp only [isBlank, Bool.or_eq_true, Bool.and_eq_true, decide_eq_true_eq, beq_iff_eq] at h
  simp only [blankCodes, List.mem_cons, List.not_mem_nil, or_false]
  omega

set_option maxRecDepth 1000 in
theorem not_isBlank_of_isContinuing {c : Char} (h : Word.isContinuing c) : isBlank c = false := by
  have hall : ∀ n ∈ blankCodes, Word.isContinuing (Char.ofNat n) = false := by decide
  by_contra hblank
  have hc := hall c.toNat (mem_blankCodes (by simpa using hblank))
  rw [Char.ofNat_toNat, h] at hc
  cases hc

end Blank

namespace EndsVisibly

variable {cs : List Char}

theorem trimEnd_eq (h : EndsVisibly cs) : Blank.trimEnd cs = cs := by
  obtain ⟨before, c, rfl, hc⟩ := h
  simp [Blank.trimEnd, hc]

theorem concat {c : Char} (before : List Char) (hc : Blank.isBlank c = false) : EndsVisibly (before ++ [c]) :=
  ⟨before, c, rfl, hc⟩

theorem append (before : List Char) (h : EndsVisibly cs) : EndsVisibly (before ++ cs) := by
  obtain ⟨start, c, rfl, hc⟩ := h
  exact ⟨before ++ start, c, by simp, hc⟩

theorem of_continuing (hne : cs ≠ []) (h : ∀ c ∈ cs, Word.isContinuing c) : EndsVisibly cs := by
  obtain ⟨before, c, rfl⟩ := List.eq_nil_or_concat' cs |>.resolve_left hne
  exact concat before (Blank.not_isBlank_of_isContinuing (h c (by simp)))

theorem of_isWord {w : List Char} (h : Word.isWord w) : EndsVisibly w := by
  refine of_continuing (fun hnil => ?_) (Word.isContinuing_of_isWord h)
  rw [hnil] at h
  cases h

theorem of_digits (n : Nat) : EndsVisibly (Nat.toDigits 10 n) :=
  of_continuing Nat.toDigits_ne_nil fun _ hc => Number.isContinuing_of_isDigit (Number.isDigit_of_mem_toDigits hc)

theorem of_int (i : Int) : EndsVisibly (Expr.literal (.int i)).chars := by
  rw [Expr.chars_int]
  split
  · exact of_digits _
  · exact (of_digits _).append ['-']

theorem of_magnitude {d : Double} (h : d.ReadsBack) : EndsVisibly d.literalText := by
  obtain ⟨before, c, htext⟩ := List.eq_nil_or_concat' d.literalText |>.resolve_left (List.ne_nil_of_mem h.point)
  rw [htext]
  refine concat before ?_
  rcases h.plain c (by simp [htext]) with hc | rfl
  · exact Blank.not_isBlank_of_isContinuing (Number.isContinuing_of_isDigit hc)
  · rfl

theorem of_float {d : Double} (h : d.magnitude.ReadsBack) : EndsVisibly d.literalText := by
  cases hneg : d.isNegative with
  | false => exact Double.magnitude_of_not_isNegative hneg ▸ of_magnitude h
  | true => exact d.literalText_of_isNegative hneg ▸ (of_magnitude h).append ['-']

/-- A text in brackets ends in the closing one. -/
theorem bracketed {close : Char} (before inside : List Char) (start : Char) (hclose : Blank.isBlank close = false) :
    EndsVisibly (before ++ start :: (inside ++ [close])) :=
  ⟨before ++ start :: inside, close, by simp, hclose⟩

theorem of_quote (s : List Char) : EndsVisibly (Quoted.quote s) := by
  refine bracketed [] _ _ ?_
  rcases Quoted.quoteFor_eq s with h | h <;> rw [h] <;> rfl

end EndsVisibly

theorem Expr.Legible.endsVisibly {e : Expr} (h : e.Legible) : EndsVisibly e.chars := by
  induction h with
  | name hid => exact .of_isWord (isWord_of_isOperandName hid)
  | text s => exact .of_quote s.toList
  | @int i _ _ => exact .of_int i
  | @large n =>
    rw [Expr.chars, String.toList_ofList]
    exact .of_digits n
  | float hd => exact .of_float hd
  | bool b => cases b <;> exact .of_continuing (by decide) (List.all_eq_true.1 (by decide))
  | none => exact .of_continuing (by decide) (List.all_eq_true.1 (by decide))
  | @member value field _ _ hfield _ =>
    have htext : (Expr.attribute value field).chars = (value.chars ++ ['.']) ++ field.toList := by simp [Expr.chars]
    exact htext ▸ (EndsVisibly.of_isWord hfield).append _
  | @subscript value slice =>
    rw [Expr.chars_subscript]
    exact .bracketed _ _ _ rfl
  | @call function arguments keywords =>
    rw [Expr.chars_call]
    exact .bracketed _ _ _ rfl
  | @tuple items =>
    rcases items with _ | ⟨x, _ | ⟨y, items⟩⟩
    · exact ⟨['('], ')', rfl, rfl⟩
    · have htext : (Expr.tuple [x]).chars = [] ++ '(' :: ((x.chars ++ [',']) ++ [')']) := by simp [Expr.chars]
      exact htext ▸ .bracketed _ _ _ rfl
    · rw [Expr.chars_tuple (by simp)]
      exact .bracketed [] _ _ rfl
  | list =>
    rw [Expr.chars_list]
    exact .bracketed [] _ _ rfl
  | @signed e _ _ _ ih => exact e.chars_signed ▸ ih.append ['-']
  | @binary left right operator _ _ _ _ _ _ ih =>
    have htext : (Expr.binary left operator right).chars = (left.chars ++ ' ' :: (operator.toList ++ [' '])) ++ right.chars := by
      simp [Expr.chars]
    exact htext ▸ ih.append _

/-! ## Records in lines -/

/-- A field with its type, as a line has it. -/
def fieldChars (field : String × Expr) : List Char := field.1.toList ++ ':' :: ' ' :: field.2.chars

/-- The text of a class with typed fields. -/
def recordText (name : String) (bases : List Expr) (fields : List (String × Expr)) : List Char :=
  Rules.classChars name bases ++ ':' :: fields.flatMap fun field => "\n    ".toList ++ fieldChars field

/-- A field that is read off its line as another one, which differs in the type at most. -/
structure ReadsAs (written read : String × Expr) : Prop where
  name : isIdentifier written.1
  legible : written.2.Legible
  reads : written.2.typeOf.map (written.1, ·) = some read

/-- A record whose own text is a class with typed fields, and which is that class. -/
structure Class.Legible (c : Class) : Prop where
  name : Word.isWord c.name.toList
  bases : ∀ b ∈ c.bases, b.Legible
  written : ∃ fields, fields ≠ [] ∧ List.Forall₂ ReadsAs fields c.fields ∧
    c.source = String.ofList (recordText c.name c.bases fields)

namespace Class

variable {c : Class}

/-- The lines of a record with what they are read as. -/
def fieldLines (written read : List (String × Expr)) : List (List Char × Item) :=
  List.zipWith (fun w r => (fieldChars w, .typed r.1 r.2)) written read

variable {written read : List (String × Expr)}

theorem blockText_fieldLines (h : List.Forall₂ ReadsAs written read) :
    blockText (fieldLines written read) = written.flatMap fun field => "\n    ".toList ++ fieldChars field := by
  induction h with
  | nil => rfl
  | cons _ _ ih => simpa [fieldLines, blockText] using ih

theorem fields_of_fieldLines (h : List.Forall₂ ReadsAs written read) :
    (pieces (fieldLines written read)).filterMap Rules.fieldOf = read := by
  induction h with
  | nil => rfl
  | cons _ _ ih => simpa [fieldLines, pieces, Rules.fieldOf] using ih

theorem fieldLines_ne_nil (h : List.Forall₂ ReadsAs written read) (hne : written ≠ []) :
    fieldLines written read ≠ [] := by
  cases h with
  | nil => exact absurd rfl hne
  | cons _ _ => simp [fieldLines]

theorem readsLine_fieldLines {r : Rules} {length : Nat} (hr : r.Covers length) (h : List.Forall₂ ReadsAs written read)
    (hlength : (blockText (fieldLines written read)).length ≤ length) :
    ∀ l ∈ fieldLines written read, r.ReadsLine l.1 l.2 := by
  have hlines : ∀ l ∈ fieldLines written read, l.1.length ≤ length := fun l hl =>
    Nat.le_trans (Rules.length_le_blockText hl) hlength
  clear hlength
  induction h with
  | nil => simp [fieldLines]
  | @cons w x _ _ hfield _ ih =>
    obtain ⟨hw, hrest⟩ := List.forall_mem_cons.1 hlines
    refine List.forall_mem_cons.2 ⟨?_, ih hrest⟩
    obtain ⟨type, has, rfl⟩ := Option.map_eq_some_iff.1 hfield.reads
    exact Rules.readsLine_field hr hfield.name hfield.legible hw has

theorem endsVisibly_fieldLines (h : List.Forall₂ ReadsAs written read) (hne : written ≠ []) :
    EndsVisibly (blockText (fieldLines written read)) := by
  induction h with
  | nil => exact absurd rfl hne
  | @cons w x ws xs hfield _ ih =>
    have htext : blockText (fieldLines (w :: ws) (x :: xs)) =
        ("\n    ".toList ++ w.1.toList ++ [':', ' ']) ++ w.2.chars ++ blockText (fieldLines ws xs) := by
      simp [fieldLines, blockText, fieldChars]
    have hfirst := hfield.legible.endsVisibly.append ("\n    ".toList ++ w.1.toList ++ [':', ' '])
    rw [htext]
    cases ws with
    | nil => simpa [fieldLines, blockText] using hfirst
    | cons => exact (ih (by simp)).append _

/-- The text of a record in its lines. -/
theorem Legible.source_eq (h : c.Legible) : ∃ written, written ≠ [] ∧ List.Forall₂ ReadsAs written c.fields ∧
    c.source.toList = Rules.classChars c.name c.bases ++ ':' :: blockText (fieldLines written c.fields) := by
  obtain ⟨written, hne, hfields, htext⟩ := h.written
  exact ⟨written, hne, hfields, by rw [htext, blockText_fieldLines hfields, String.toList_ofList, recordText]⟩

/-- The text of a record is written as it stands. -/
theorem Legible.endsVisibly (h : c.Legible) : EndsVisibly c.source.toList := by
  obtain ⟨written, hne, hfields, htext⟩ := h.source_eq
  rw [htext, ← List.singleton_append, ← List.append_assoc]
  exact (endsVisibly_fieldLines hfields hne).append _

/-! ## Reading -/

variable {n : Nat} {rest start : List Char}

/-- **The text of a record** is read as the record. -/
theorem statement_source (h : c.Legible) (hlength : 3 * c.source.toList.length + 4 ≤ n) (hrest : LineBreak rest 0 start) :
    (Rules.depth (n + 1)).statement 0 (c.source.toList ++ rest) =
      some ([⟨.ofClass { c with line := 0 }, c.source⟩], rest) := by
  obtain ⟨written, hne, hfields, htext⟩ := h.source_eq
  rw [htext] at hlength
  simp only [List.length_append, List.length_cons] at hlength
  have hcovers : (Rules.depth n).Covers (blockText (fieldLines written c.fields)).length := Rules.covers_depth (by omega)
  have hreads := readsLine_fieldLines hcovers hfields (Nat.le_refl _)
  obtain ⟨l, lines, hlines⟩ := List.exists_cons_of_ne_nil (fieldLines_ne_nil hfields hne)
  have hsuite : (Rules.depth (n + 1)).suite 0 (blockText (fieldLines written c.fields) ++ rest) =
      some (pieces (fieldLines written c.fields), rest) := by
    rw [hlines] at hreads ⊢
    exact Rules.suiteRule_blockText hreads hrest
  have hclass := Rules.classDefinition_of_legible (Rules.covers_depth (n := n + 1) (by omega)) (c.source.toList ++ rest)
    h.name h.bases (Nat.le_refl _) hsuite
  have hbehind : c.source.toList ++ rest = "class".toList ++ ' ' :: (c.name.toList ++ '(' ::
      (commaSeparated (c.bases.map Expr.chars) ++ ')' :: ':' :: (blockText (fieldLines written c.fields) ++ rest))) := by
    simp [htext, Rules.classChars]
  rw [hbehind, Rules.statement_of_class, ← hbehind, hclass]
  simp [fields_of_fieldLines hfields, between_append]

end Class
end PluginTools
