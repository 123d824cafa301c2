/-
Expressions of a plugin's source, as far as tools need them. Types, defaults, decorators and the body of
a forwarding function are told apart by shape; every expression beyond these shapes is kept as `verbatim`,
the kind of its grammar rule and its own text, so that it can be written again unchanged.
-/
import PluginTools.Number.Shortest
import PluginTools.Text.Quoted

namespace PluginTools

/-- A value written out in the source. -/
inductive Literal where
  | text (value : String)
  | int (value : Int)
  | float (value : Double)
  | bool (value : Bool)
  | none
deriving DecidableEq, Repr, Inhabited

inductive Expr where
  | name (id : String)
  | literal (value : Literal)
  | attribute (value : Expr) (field : String)
  | subscript (value slice : Expr)
  | tuple (items : List Expr)
  | list (items : List Expr)
  | call (function : Expr) (arguments : List Expr) (keywords : List (String × Expr))
  | binary (left : Expr) (operator : String) (right : Expr)
  | verbatim (kind text : String)
deriving Repr, Inhabited

namespace Expr

def text (s : String) : Expr := .literal (.text s)

/-- The identifier, if the expression is a bare name. -/
def name? : Expr → Option String
  | .name id => some id
  | _ => none

/-- The string, if the expression is a string constant. -/
def text? : Expr → Option String
  | .literal (.text s) => some s
  | _ => none

/-- Whether the expression is the given bare name. -/
def isName (e : Expr) (id : String) : Bool := e.name? == some id

end Expr

/-- The name of a literal's type. -/
def Literal.typeName : Literal → String
  | .text _ => "str"
  | .int _ => "int"
  | .float _ => "float"
  | .bool _ => "bool"
  | .none => "None"

/-- A short label of an expression's shape, for messages. -/
def Expr.shape : Expr → String
  | .name _ => "Name"
  | .literal l => "Constant(" ++ l.typeName ++ ")"
  | .attribute .. => "Attribute"
  | .subscript .. => "Subscript"
  | .tuple _ => "Tuple"
  | .list _ => "List"
  | .call .. => "Call"
  | .binary _ operator _ => "BinOp(" ++ operator ++ ")"
  | .verbatim kind _ => kind

/-! ## Equality -/

/-- Equality of literals; floats are compared as numbers. -/
def Literal.same : Literal → Literal → Bool
  | .float a, .float b => a.same b
  | a, b => a == b

mutual

/-- Equality of expressions, part by part; floats are compared as numbers. -/
def Expr.same : Expr → Expr → Bool
  | .name a, .name b => a == b
  | .literal a, .literal b => a.same b
  | .attribute a f, .attribute b g => a.same b && f == g
  | .subscript a s, .subscript b t => a.same b && s.same t
  | .tuple xs, .tuple ys => Expr.sameItems xs ys
  | .list xs, .list ys => Expr.sameItems xs ys
  | .call f xs ks, .call g ys ls => f.same g && Expr.sameItems xs ys && Expr.sameKeywords ks ls
  | .binary a o b, .binary c p d => a.same c && o == p && b.same d
  | .verbatim k s, .verbatim l t => k == l && s == t
  | _, _ => false

def Expr.sameItems : List Expr → List Expr → Bool
  | [], [] => true
  | x :: xs, y :: ys => x.same y && Expr.sameItems xs ys
  | _, _ => false

def Expr.sameKeywords : List (String × Expr) → List (String × Expr) → Bool
  | [], [] => true
  | (k, x) :: xs, (l, y) :: ys => k == l && x.same y && Expr.sameKeywords xs ys
  | _, _ => false

end

/-! ## Text -/

/-- The parts with a comma and a blank between them. -/
def commaSeparated (parts : List (List Char)) : List Char := [',', ' '].intercalate parts

def Literal.chars : Literal → List Char
  | .text s => Quoted.quote s.toList
  | .int i => (toString i).toList
  | .float d => d.literalText
  | .bool true => "True".toList
  | .bool false => "False".toList
  | .none => "None".toList

mutual

/-- The text of an expression. Operands are written without parentheses, and the items of a subscript
without those of their tuple. -/
def Expr.chars : Expr → List Char
  | .name id => id.toList
  | .literal l => l.chars
  | .attribute value field => value.chars ++ '.' :: field.toList
  | .subscript value (.tuple (x :: xs)) =>
    value.chars ++ '[' :: (commaSeparated (x.chars :: Expr.itemChars xs) ++ [']'])
  | .subscript value slice => value.chars ++ '[' :: (slice.chars ++ [']'])
  | .tuple [x] => '(' :: (x.chars ++ [',', ')'])
  | .tuple xs => '(' :: (commaSeparated (Expr.itemChars xs) ++ [')'])
  | .list xs => '[' :: (commaSeparated (Expr.itemChars xs) ++ [']'])
  | .call f xs ks =>
    f.chars ++ '(' :: (commaSeparated (Expr.itemChars xs ++ Expr.keywordChars ks) ++ [')'])
  | .binary l o r => l.chars ++ ' ' :: (o.toList ++ ' ' :: r.chars)
  | .verbatim _ s => s.toList

def Expr.itemChars : List Expr → List (List Char)
  | [] => []
  | x :: xs => x.chars :: Expr.itemChars xs

def Expr.keywordChars : List (String × Expr) → List (List Char)
  | [] => []
  | (k, x) :: xs => (k.toList ++ '=' :: x.chars) :: Expr.keywordChars xs

end

theorem Expr.itemChars_eq_map (xs : List Expr) : itemChars xs = xs.map chars := by
  induction xs with
  | nil => rfl
  | cons x xs ih => rw [itemChars, ih, List.map_cons]

theorem Expr.chars_list (items : List Expr) :
    (Expr.list items).chars = '[' :: (commaSeparated (items.map chars) ++ [']']) := by
  rw [chars, itemChars_eq_map]

/-- The text of an expression as a string. -/
def Expr.write (e : Expr) : String := String.ofList e.chars

end PluginTools
