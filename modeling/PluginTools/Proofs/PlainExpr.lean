/-
Plain expressions: names, constants, attributes, subscripts, calls, tuples, lists and unions, which is the
language that plugins write their types and defaults in. Here is how the text of an expression is put together.
-/
import Mathlib
import PluginTools.Proofs.Integers
import PluginTools.Proofs.Loops
import PluginTools.Proofs.Quoting
import PluginTools.Source.Bracket

namespace PluginTools

/-- Words that are no identifiers of a plain source: keywords, and words that are one at some place. -/
def reservedWords : List String :=
  ["False", "None", "True", "and", "as", "assert", "async", "await", "break", "class", "continue", "def", "del",
    "elif", "else", "except", "finally", "for", "from", "global", "if", "import", "in", "is", "lambda", "nonlocal",
    "not", "or", "pass", "raise", "return", "try", "while", "with", "yield", "print", "exec", "match", "case", "type"]

def isIdentifier (id : String) : Bool := Word.isWord id.toList && !reservedWords.contains id

theorem isWord_of_isIdentifier {id : String} (h : isIdentifier id) : Word.isWord id.toList := by
  simp only [isIdentifier, Bool.and_eq_true] at h
  exact h.1

theorem not_reserved_of_isIdentifier {id : String} (h : isIdentifier id) : id ∉ reservedWords := by
  simp only [isIdentifier, Bool.and_eq_true, Bool.not_eq_true', List.contains_eq_mem, decide_eq_false_iff_not] at h
  exact h.2

theorem toList_ne_of_isIdentifier {id word : String} (h : isIdentifier id) (hword : word ∈ reservedWords) :
    id.toList ≠ word.toList := by
  intro he
  exact not_reserved_of_isIdentifier h (String.toList_inj.1 he ▸ hword)

namespace Expr

/-- Whether attributes, brackets and parentheses may stand behind the expression. -/
def isHead : Expr → Bool
  | .name _ | .attribute .. | .subscript .. | .call .. => true
  | _ => false

def isBinary : Expr → Bool
  | .binary .. => true
  | _ => false

/-- What stands between the brackets of a subscript: the items of a tuple, or the one index. -/
def indices : Expr → List Expr
  | .tuple (x :: xs) => x :: xs
  | e => [e]

/-- The language of plain expressions. -/
inductive Plain : Expr → Prop
  | name {id : String} (hid : isIdentifier id) : Plain (.name id)
  | text (s : String) : Plain (.text s)
  | int {i : Int} (hlow : -2 ^ 63 < i) (hhigh : i < 2 ^ 63) : Plain (.literal (.int i))
  | bool (b : Bool) : Plain (.literal (.bool b))
  | none : Plain (.literal .none)
  | member {value : Expr} {field : String} (hvalue : Plain value) (hhead : value.isHead)
    (hfield : isIdentifier field) : Plain (.attribute value field)
  | subscript {value slice : Expr} (hvalue : Plain value) (hhead : value.isHead)
    (hslice : ∀ x ∈ slice.indices, Plain x) (hpair : ∀ x, slice ≠ .tuple [x]) : Plain (.subscript value slice)
  | call {function : Expr} {arguments : List Expr} {keywords : List (String × Expr)} (hfunction : Plain function)
    (hhead : function.isHead) (harguments : ∀ x ∈ arguments, Plain x) (hnames : ∀ k ∈ keywords, isIdentifier k.1)
    (hkeywords : ∀ k ∈ keywords, Plain k.2) : Plain (.call function arguments keywords)
  | tuple {items : List Expr} (hitems : ∀ x ∈ items, Plain x) : Plain (.tuple items)
  | list {items : List Expr} (hitems : ∀ x ∈ items, Plain x) : Plain (.list items)
  | union {left right : Expr} (hleft : Plain left) (hright : Plain right) (hl : left.isBinary = false)
    (hr : right.isBinary = false) : Plain (.binary left "|" right)

/-- A subscript is plain if its parts are, unless the slice is a tuple of one item. -/
theorem Plain.subscript_of_plain {value slice : Expr} (hvalue : Plain value) (hhead : value.isHead)
    (hslice : Plain slice) (hpair : ∀ x, slice ≠ .tuple [x]) : Plain (.subscript value slice) := by
  refine .subscript hvalue hhead (fun x hx => ?_) hpair
  unfold indices at hx
  split at hx
  · next ys _ =>
    cases hslice with
    | tuple hitems => exact hitems x hx
  · rw [List.mem_singleton.1 hx]
    exact hslice

/-- Whether the text starts with a name and a bracket. -/
def startsGeneric : Expr → Bool
  | .subscript (.name _) _ => true
  | .subscript value _ | .attribute value _ => value.startsGeneric
  | .call function _ _ => function.startsGeneric
  | .binary left _ _ => left.startsGeneric
  | _ => false

/-! ## Text -/

theorem chars_int (i : Int) : (Expr.literal (.int i)).chars =
    if 0 ≤ i then Nat.toDigits 10 i.toNat else '-' :: Nat.toDigits 10 (-i).toNat := by
  rw [chars, Literal.chars, Int.toString_eq_repr, Int.repr_eq_if]
  split <;> simp

/-- An argument given by name. -/
def keywordText (k : String × Expr) : List Char := k.1.toList ++ '=' :: k.2.chars

theorem keywordChars_eq_map (ks : List (String × Expr)) : keywordChars ks = ks.map keywordText := by
  induction ks with
  | nil => rfl
  | cons k ks ih =>
    obtain ⟨n, x⟩ := k
    rw [keywordChars, ih]
    rfl

theorem chars_subscript (value slice : Expr) :
    (Expr.subscript value slice).chars =
      value.chars ++ '[' :: (commaSeparated (slice.indices.map chars) ++ [']']) := by
  unfold indices
  split
  · rw [chars, itemChars_eq_map, List.map_cons]
  · next h =>
    rw [chars, List.map_singleton, commaSeparated_cons]
    · simp
    · exact fun x xs he => h x xs he

theorem chars_tuple {items : List Expr} (h : ∀ x, items ≠ [x]) :
    (Expr.tuple items).chars = '(' :: (commaSeparated (items.map chars) ++ [')']) := by
  rw [chars, itemChars_eq_map]
  exact fun x he => h x he

theorem chars_call (f : Expr) (xs : List Expr) (ks : List (String × Expr)) :
    (Expr.call f xs ks).chars = f.chars ++ '(' :: (commaSeparated (xs.map chars ++ ks.map keywordText) ++ [')']) := by
  rw [chars, itemChars_eq_map, keywordChars_eq_map]

theorem chars_binary (left right : Expr) (operator : String) :
    (Expr.binary left operator right).chars = left.chars ++ ' ' :: (operator.toList ++ ' ' :: right.chars) := rfl

theorem indices_ne_nil (e : Expr) : e.indices ≠ [] := by
  unfold indices
  split <;> simp

/-- Unless it is a tuple of one item, a slice is what its indices make. -/
theorem sliceOf_indices {e : Expr} (h : ∀ x, e ≠ .tuple [x]) : Rules.sliceOf e.indices = e := by
  unfold indices
  split
  · next x xs =>
    cases xs with
    | nil => exact absurd rfl (h x)
    | cons y ys => rfl
  · rfl

end Expr
end PluginTools
