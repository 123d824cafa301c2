/-
Definitions. The text of a forwarding function is read as the function that it defines, with its types as they
are read, unless one of them is none; and the text of a record is read as the class that it defines.
-/
import PluginTools.Proofs.Headers
import PluginTools.Stub.Vocabulary

namespace PluginTools

open Layout (LineBreak endsWord startsToken)

namespace Rules

variable {r : Rules} {rest start : List Char} {length n : Nat}

/-! ## Functions -/

/-- No block behind a colon goes on with the type before it. -/
theorem extendsType_blockText {l : List Char × Item} {lines : List (List Char × Item)}
    (hl : r.ReadsLine l.1 l.2) : extendsType 0 (blockText (l :: lines) ++ rest) = false := by
  have hinner := LineBreak.inner (hl.starts (blockText lines ++ rest))
  have htext : blockText (l :: lines) ++ rest =
      '\n' :: ' ' :: ' ' :: ' ' :: ' ' :: (l.1 ++ (blockText lines ++ rest)) := by
    simp [blockText]
  have hread : (Layout.read ⟨true, false, true, false, true, false⟩ 0 false (blockText (l :: lines) ++ rest)) =
      ⟨[], .indent 4 (blockText (l :: lines) ++ rest)⟩ := by
    rw [htext]
    exact Layout.readFrom_of_boundary (hinner.margin _) (by simp [Layout.boundary?])
  simp [extendsType, hread]

/-- The header of a function behind its word, up to the colon. -/
def signatureChars (name : String) (parameters : List Parameter) (returns : Option Expr) : List Char :=
  name.toList ++ '(' :: (commaSeparated (parameters.map Parameter.chars) ++ ')' :: returnChars returns)

theorem functionDefinition_of_legible (hr : r.Covers length) {name : String} {ps : List Parameter}
    {returns : Option Expr} {l : List Char × Item} {lines : List (List Char × Item)} (decorators : List Expr)
    (hname : Word.isWord name.toList) (hps : ∀ q ∈ ps, q.Legible) (hreturns : ∀ t ∈ returns, t.Legible)
    (hlength : (signatureChars name ps returns).length ≤ length) (hl : r.ReadsLine l.1 l.2)
    (hsuite : r.suite 0 (blockText (l :: lines) ++ rest) = some (pieces (l :: lines), rest)) :
    r.functionDefinition 0 decorators
        (' ' :: (signatureChars name ps returns ++ ':' :: (blockText (l :: lines) ++ rest))) =
      (ps.mapM Parameter.typed).bind fun ps => (Expr.returnOf returns).map fun returns =>
        (⟨name, decorators, ps, returns, (pieces (l :: lines)).map statementOf, 0⟩, rest) := by
  have hextends : extendsType 0 (blockText (l :: lines) ++ rest) = false := extendsType_blockText hl
  have hhead : (blockText (l :: lines) ++ rest).head? ≠ some '=' := by simp [blockText]
  generalize blockText (l :: lines) ++ rest = behind at hsuite hextends hhead ⊢
  simp only [signatureChars, List.length_append, List.length_cons] at hlength
  have htext : signatureChars name ps returns ++ ':' :: behind = name.toList ++
      '(' :: (commaSeparated (ps.map Parameter.chars) ++ ')' :: (returnChars returns ++ ':' :: behind)) := by
    simp [signatureChars]
  have hnamed : (Place.lineAt 0).within.name? (' ' :: (signatureChars name ps returns ++ ':' :: behind)) =
      some (name, '(' :: (commaSeparated (ps.map Parameter.chars) ++ ')' :: (returnChars returns ++ ':' :: behind))) := by
    rw [htext, Place.name?_blank_word hname rfl, String.ofList_toList]
  have hparameters : r.parameters (Place.lineAt 0).within
      (commaSeparated (ps.map Parameter.chars) ++ ')' :: (returnChars returns ++ ':' :: behind)) =
        (ps.mapM Parameter.typed).map (·, returnChars returns ++ ':' :: behind) :=
    parameters_of_legible hr hps fun q hq => by
      have hle := length_le_length_commaSeparated (List.mem_map_of_mem (f := Parameter.chars) hq)
      omega
  have hreturn := returnType_of_legible (r := r) (p := (Place.lineAt 0).within) hr hreturns
    (fun t ht => by
      cases ht
      simp only [returnChars, List.length_append] at hlength
      omega) hhead
  simp only [functionDefinition, hnamed, skipTypeParameters, Place.after?_other (show Layout.isMark '(' by decide)
    (show '(' ≠ '[' by decide), Place.after?_self (show Layout.isMark '(' by decide), hparameters, Option.bind_eq_bind,
    Option.bind_some]
  cases ps.mapM Parameter.typed with
  | none => rfl
  | some ps' =>
    simp only [Option.map_some, Option.bind_some]
    cases hread : r.returnType (Place.lineAt 0).within (returnChars returns ++ ':' :: behind) with
    | none =>
      rw [hread] at hreturn
      simp [Option.map_eq_none_iff.1 hreturn.symm]
    | some read =>
      rw [hread, Option.bind_some] at hreturn
      cases has : Expr.returnOf returns with
      | none =>
        have hnone : (Place.lineAt 0).within.after? ':' read.2 = .none := by simpa [has] using hreturn
        simp [hnone]
      | some returns' =>
        obtain ⟨hcolon, hvalue⟩ : (Place.lineAt 0).within.after? ':' read.2 = some behind ∧ read.1 = returns' := by
          simpa [has] using hreturn
        simp [hcolon, hvalue, hextends, hsuite]

/-! ## Decorators -/

/-- The line of the decorator of a forwarding function, and the definition's word. -/
def markChars : List Char := '@' :: (Vocabulary.toolMark.chars ++ "\ndef".toList)

theorem legible_toolMark : Vocabulary.toolMark.Legible :=
  .call (.member (.name (by decide)) rfl (by decide)) rfl (by simp) (by simp) (by simp)

theorem decorated_of_mark (hr : r.Covers length) (hlength : markChars.length ≤ length) (cs behind : List Char)
    (fuel : Nat) :
    r.decorated 0 cs (fuel + 2) [] (markChars ++ ' ' :: behind) =
      (r.functionDefinition 0 [Vocabulary.toolMark] (' ' :: behind)).map fun (f, stop) => (.ofFunction f, stop) := by
  have hlegible := legible_toolMark
  have hbreak : LineBreak ('\n' :: ("def".toList ++ ' ' :: behind)) 0 ("def".toList ++ ' ' :: behind) := .next rfl
  have htext : markChars ++ ' ' :: behind =
      '@' :: (Vocabulary.toolMark.chars ++ '\n' :: ("def".toList ++ ' ' :: behind)) := rfl
  have hread := hr.expression _ hlegible (by simp only [markChars, List.length_cons, List.length_append] at hlength; omega)
    (Place.lineAt 0) Level.lowest _ (.lineBreak rfl hbreak)
  have hnext : (Place.lineAt 0).within.next? ('\n' :: ("def".toList ++ ' ' :: behind)) =
      some ("def".toList ++ ' ' :: behind) := Place.next?_lineBreak rfl hbreak rfl rfl
  have hafter : ∀ word, Word.after? word ("def".toList ++ ' ' :: behind) =
      if "def".toList = word.toList then some (' ' :: behind) else .none := fun word => Word.after?_append (by decide) rfl
  have hdefinition : r.definition 0 [Vocabulary.toolMark] cs ("def".toList ++ ' ' :: behind) =
      (r.functionDefinition 0 [Vocabulary.toolMark] (' ' :: behind)).map fun (f, stop) => (.ofFunction f, stop) := by
    simp only [definition, hafter]
    rfl
  rw [htext, decorated]
  simp only [Place.token?_of_startsToken (hlegible.startsToken _), hread, Place.ended?_lineBreak hbreak, hnext,
    Option.bind_eq_bind, Option.bind_some]
  exact hdefinition

theorem statement_of_mark (hr : r.Covers length) (hlength : markChars.length ≤ length) (behind : List Char) :
    r.statement 0 (markChars ++ ' ' :: behind) =
      (r.functionDefinition 0 [Vocabulary.toolMark] (' ' :: behind)).map fun (f, stop) =>
        ([⟨.ofFunction f, between (markChars ++ ' ' :: behind) stop⟩], stop) := by
  obtain ⟨fuel, hfuel⟩ : ∃ fuel, (markChars ++ ' ' :: behind).length = fuel + 2 :=
    ⟨markChars.length + behind.length - 1, by simp [markChars]; omega⟩
  have hcompound : r.compound? 0 (markChars ++ ' ' :: behind) =
      some (r.decorated 0 (markChars ++ ' ' :: behind) (markChars ++ ' ' :: behind).length []
        (markChars ++ ' ' :: behind)) := by
    unfold compound?
    exact if_pos rfl
  rw [statement, hcompound, hfuel, decorated_of_mark hr hlength]
  simp [Function.comp_def]

/-! ## Classes -/

/-- The header of a class, up to the colon. -/
def classChars (name : String) (bases : List Expr) : List Char :=
  "class ".toList ++ (name.toList ++ '(' :: (commaSeparated (bases.map Expr.chars) ++ [')']))

theorem classDefinition_of_legible (hr : r.Covers length) {name : String} {bases : List Expr}
    {lines : List (List Char × Item)} (cs : List Char) (hname : Word.isWord name.toList) (hbases : ∀ b ∈ bases, b.Legible)
    (hlength : (classChars name bases).length ≤ length)
    (hsuite : r.suite 0 (blockText lines ++ rest) = some (pieces lines, rest)) :
    r.classDefinition 0 cs (' ' :: (name.toList ++ '(' :: (commaSeparated (bases.map Expr.chars) ++
        ')' :: ':' :: (blockText lines ++ rest)))) =
      some (⟨name, bases, (pieces lines).filterMap fieldOf, between cs rest, 0⟩, rest) := by
  simp only [classChars, List.length_append, List.length_cons] at hlength
  generalize blockText lines ++ rest = behind at hsuite ⊢
  have hnamed : (Place.lineAt 0).within.name? (' ' :: (name.toList ++ '(' :: (commaSeparated (bases.map Expr.chars) ++
      ')' :: ':' :: behind))) = some (name, '(' :: (commaSeparated (bases.map Expr.chars) ++ ')' :: ':' :: behind)) := by
    rw [Place.name?_blank_word hname rfl, String.ofList_toList]
  have harguments : r.arguments (Place.lineAt 0).within (commaSeparated (bases.map Expr.chars) ++ ')' :: ':' :: behind) =
      some (bases.map Argument.positional, ':' :: behind) := by
    have hlegible : ∀ a ∈ bases.map Argument.positional, LegibleArgument r a := by
      simp only [List.mem_map]
      rintro a ⟨b, hb, rfl⟩
      have hle := length_le_length_commaSeparated (List.mem_map_of_mem (f := Expr.chars) hb)
      exact .positional (hbases b hb) (hr.expression b (hbases b hb) (by omega))
    have htext : bases.map Expr.chars = (bases.map Argument.positional).map Argument.chars := by
      simp [Function.comp_def, Argument.chars]
    rw [htext]
    exact arguments_of_legible hlegible
  have hbaseOf : (bases.map Argument.positional).filterMap baseOf = bases := by
    simp [List.filterMap_map, Function.comp_def, baseOf]
  have hbody : r.body 0 (':' :: behind) = some (pieces lines, rest) := by
    simp [body, Place.after?_self (show Layout.isMark ':' by decide), hsuite]
  simp only [classDefinition, hnamed, skipTypeParameters, Place.after?_other (show Layout.isMark '(' by decide)
    (show '(' ≠ '[' by decide), Place.after?_self (show Layout.isMark '(' by decide), harguments, hbaseOf, hbody,
    Option.bind_eq_bind, Option.bind_some]
  simp

theorem statement_of_class (behind : List Char) :
    r.statement 0 ("class".toList ++ ' ' :: behind) =
      (r.classDefinition 0 ("class".toList ++ ' ' :: behind) (' ' :: behind)).map fun (c, stop) =>
        ([⟨.ofClass c, between ("class".toList ++ ' ' :: behind) stop⟩], stop) := by
  have hword : Word.read? ("class".toList ++ ' ' :: behind) = some ("class".toList, ' ' :: behind) :=
    Word.read?_append (by decide) rfl
  have hafter : Word.after? "class" ("class".toList ++ ' ' :: behind) = some (' ' :: behind) :=
    Word.after?_append (by decide) rfl
  have hdefinition : r.definition 0 [] ("class".toList ++ ' ' :: behind) ("class".toList ++ ' ' :: behind) =
      (r.classDefinition 0 ("class".toList ++ ' ' :: behind) (' ' :: behind)).map
        fun (c, stop) => (.ofClass c, stop) := by
    simp only [definition, hafter]
  have hcompound : r.compound? 0 ("class".toList ++ ' ' :: behind) =
      some (r.definition 0 [] ("class".toList ++ ' ' :: behind) ("class".toList ++ ' ' :: behind)) := by
    unfold compound?
    rw [if_neg (by rintro ⟨⟩), hword]
    exact if_pos (.inr String.ofList_toList)
  rw [statement, hcompound, hdefinition]
  simp [Function.comp_def]

end Rules
end PluginTools
