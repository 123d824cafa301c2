/-
The blocks of a generated module: the records, each by its own text, and the forwarding functions. Each block is
read as the declaration that it was written from, with its types as they are read.
-/
import PluginTools.Proofs.Definitions
import PluginTools.Proofs.Generation

namespace PluginTools

open Layout (LineBreak startsToken)
open Rules (blockText pieces)

/-! ## Functions -/

/-- A function with legible types and defaults. -/
structure Function.Legible (f : Function) : Prop where
  name : Word.isWord f.name.toList
  parameters : ∀ p ∈ f.parameters, p.Legible
  returns : ∀ t ∈ f.returns, t.Legible

/-- The function that the text of one is, if its types are types. -/
def Function.typed (f : Function) : Option Function :=
  (f.parameters.mapM Parameter.typed).bind fun parameters => (Expr.returnOf f.returns).map fun returns =>
    { f with parameters, returns }

namespace Function

variable {f : Function}

/-- A line that returns a value. -/
def returnLine (value : Expr) : List Char × Item := ("return ".toList ++ value.chars, .result (some value))

/-- A line that is a docstring. -/
def docstringLine (s : String) : List Char × Item := (Quoted.docstring s.toList, .expressions [.text s])

/-- The lines of the body. -/
def bodyLines (f : Function) : List (List Char × Item) :=
  f.docstring?.toList.map docstringLine ++ [returnLine (forwardCall f.name (f.parameters.map (·.name)))]

/-- The text of a function without the end of its last line. -/
def blockChars (f : Function) : List Char :=
  Rules.markChars ++ ' ' :: (Rules.signatureChars f.name f.parameters f.returns ++ ':' :: blockText f.bodyLines)

theorem bodyLines_cons (f : Function) : ∃ l lines, f.bodyLines = l :: lines := by
  unfold bodyLines
  cases f.docstring? <;> simp

theorem bodyLine_eq (text : List Char) : bodyLine text = "    ".toList ++ text ++ ['\n'] := rfl

/-- The lines of a body, each behind the end of the line before it. -/
theorem newline_bodyChars (h : f.Forwards) : '\n' :: bodyChars f.body = blockText f.bodyLines ++ ['\n'] := by
  rw [h.body, bodyLines]
  have hresult : ∀ e, (Statement.result (some e)).chars = (returnLine e).1 := fun e => rfl
  have hopening : ∀ e, (Statement.result (some e)).openingChars = (returnLine e).1 := fun e => rfl
  have hdocstring : ∀ s, (Statement.expression (.text s)).openingChars = (docstringLine s).1 := fun s => rfl
  cases f.docstring? with
  | none => simp [bodyChars, bodyLine_eq, hopening, blockText]
  | some s => simp [bodyChars, bodyLine_eq, hdocstring, hresult, blockText]

theorem chars_of_forwards (h : f.Forwards) : f.chars = f.blockChars ++ ['\n'] := by
  have hbody := newline_bodyChars h
  have htext : f.chars = Rules.markChars ++ ' ' ::
      (Rules.signatureChars f.name f.parameters f.returns ++ ':' :: '\n' :: bodyChars f.body) := by
    rw [chars, h.decorators]
    cases f.returns <;> simp [Rules.markChars, Rules.signatureChars, Rules.returnChars]
  rw [htext, hbody, blockChars]
  simp

theorem statementOf_bodyLines (h : f.Forwards) : (pieces f.bodyLines).map Rules.statementOf = f.body := by
  rw [h.body, bodyLines]
  cases f.docstring? <;> rfl

/-! ### Reading -/

variable {n length : Nat} {rest start : List Char}

/-- The call in the body of a forwarding function is legible. -/
theorem legible_forwardCall {method : String} {names : List String} (hnames : ∀ name ∈ names, isOperandName name) :
    (forwardCall method names).Legible := by
  refine .call (.name (by decide)) rfl (fun x hx => ?_) (by simp) (by simp)
  rcases List.mem_cons.1 hx with rfl | hx
  · exact .text method
  · obtain ⟨name, hname, rfl⟩ := List.mem_map.1 hx
    exact .name (hnames name hname)

theorem readsLine_bodyLines {r : Rules} (hr : r.Covers length) (hf : f.Legible) (hlength : f.blockChars.length ≤ length) :
    ∀ l ∈ f.bodyLines, r.ReadsLine l.1 l.2 := by
  intro l hl
  have hle : l.1.length ≤ (blockText f.bodyLines).length := Rules.length_le_blockText hl
  simp only [blockChars, List.length_append, List.length_cons] at hlength
  have hcall : (forwardCall f.name (f.parameters.map (·.name))).Legible := legible_forwardCall (by
    intro name hname
    obtain ⟨p, hp, rfl⟩ := List.mem_map.1 hname
    exact (hf.parameters p hp).name)
  simp only [bodyLines, List.mem_append, List.mem_map, List.mem_singleton] at hl
  rcases hl with ⟨s, -, rfl⟩ | rfl
  · exact Rules.readsLine_docstring hr s
  · have hsize : ∀ e, (returnLine e).1.length = 7 + e.chars.length := fun e => by
      rw [Nat.add_comm]
      rfl
    rw [hsize] at hle
    exact Rules.readsLine_return hr hcall (by omega)

/-- **The block of a forwarding function** is read as the function with its types as they are read. -/
theorem statement_blockChars (hf : f.Legible) (h : f.Forwards) (hlength : 3 * f.blockChars.length + 4 ≤ n)
    (hrest : LineBreak rest 0 start) :
    (Rules.depth (n + 1)).statement 0 (f.blockChars ++ rest) =
      f.typed.map fun f' => ([⟨.ofFunction { f' with line := 0 }, String.ofList f.blockChars⟩], rest) := by
  obtain ⟨l, lines, hlines⟩ := bodyLines_cons f
  have hcovers : (Rules.depth (n + 1)).Covers f.blockChars.length := Rules.covers_depth (by omega)
  have hreads := readsLine_bodyLines (Rules.covers_depth hlength) hf (Nat.le_refl _)
  have hline := readsLine_bodyLines hcovers hf (Nat.le_refl _)
  rw [hlines] at hreads hline
  have hsuite : (Rules.depth (n + 1)).suite 0 (blockText (l :: lines) ++ rest) = some (pieces (l :: lines), rest) :=
    Rules.suiteRule_blockText hreads hrest
  have hsizes : f.blockChars.length = Rules.markChars.length +
      ((Rules.signatureChars f.name f.parameters f.returns).length + ((blockText f.bodyLines).length + 1) + 1) := by
    simp [blockChars]
  have hread := Rules.functionDefinition_of_legible hcovers f.decorators hf.name hf.parameters hf.returns (by omega)
    (hline l List.mem_cons_self) hsuite
  have htext : f.blockChars ++ rest = Rules.markChars ++
      ' ' :: (Rules.signatureChars f.name f.parameters f.returns ++ ':' :: (blockText (l :: lines) ++ rest)) := by
    simp [blockChars, hlines]
  rw [h.decorators] at hread
  rw [htext, Rules.statement_of_mark hcovers (by omega), hread, ← hlines, statementOf_bodyLines h, ← h.decorators,
    typed]
  rw [← hlines] at htext
  cases f.parameters.mapM Parameter.typed <;> cases Expr.returnOf f.returns <;> simp [← htext, between_append]

end Function
end PluginTools
