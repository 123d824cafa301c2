/-
What a plugin's source declares: functions with their signatures and the statements of their bodies,
classes with their annotated fields, and other declarations, of which nothing is kept.
-/
import PluginTools.Source.Expr

namespace PluginTools

/-- Whether a parameter takes one argument by position or by name. All other forms, such as a rest
parameter or a bare separator, are unsupported. -/
inductive Parameter.Kind where
  | positional
  | unsupported
deriving DecidableEq, Repr, Inhabited

/-- A parameter; that of an unsupported kind has its own text for a name and nothing else. -/
structure Parameter where
  name : String
  kind : Parameter.Kind
  type : Option Expr
  default : Option Expr
deriving Repr, Inhabited

inductive Statement where
  | expression (value : Expr)
  | result (value : Option Expr)
  | other (text : String)
deriving Repr, Inhabited

structure Function where
  name : String
  decorators : List Expr
  parameters : List Parameter
  returns : Option Expr
  body : List Statement
  /-- The line of the first decorator, or of the definition itself, counted from one. -/
  line : Nat
deriving Repr, Inhabited

/-- A class with its annotated fields and its own source text, decorators included. -/
structure Class where
  name : String
  bases : List Expr
  fields : List (String × Expr)
  source : String
  line : Nat
deriving Repr, Inhabited

inductive Declaration where
  | ofFunction (function : Function)
  | ofClass (definition : Class)
  | other
deriving Repr, Inhabited

namespace Function

/-- The string that opens the body, if there is one. -/
def docstring? (f : Function) : Option String :=
  match f.body with
  | .expression e :: _ => e.text?
  | _ => none

/-- Whether the function carries the bare name as a decorator. -/
def isMarked (f : Function) (mark : String) : Bool := f.decorators.any (·.isName mark)

end Function

/-- Whether the class has the bare name as a base. -/
def Class.hasBase (c : Class) (base : String) : Bool := c.bases.any (·.isName base)

/-! ## Text -/

namespace Parameter

def chars (p : Parameter) : List Char :=
  match p.type, p.default with
  | none, none => p.name.toList
  | some t, none => p.name.toList ++ ':' :: ' ' :: t.chars
  | none, some d => p.name.toList ++ '=' :: d.chars
  | some t, some d => p.name.toList ++ ':' :: ' ' :: (t.chars ++ ' ' :: '=' :: ' ' :: d.chars)

end Parameter

namespace Statement

def chars : Statement → List Char
  | .expression e => e.chars
  | .result none => "return".toList
  | .result (some e) => "return ".toList ++ e.chars
  | .other text => text.toList

/-- The text of the statement that opens a body, where a bare string is the docstring. -/
def openingChars : Statement → List Char
  | .expression (.literal (.text s)) => Quoted.docstring s.toList
  | s => s.chars

end Statement

namespace Function

/-- A line of a body. -/
def bodyLine (text : List Char) : List Char := "    ".toList ++ text ++ ['\n']

/-- The lines of a body; an empty one is a single `pass`. -/
def bodyChars : List Statement → List Char
  | [] => bodyLine "pass".toList
  | s :: rest => bodyLine s.openingChars ++ rest.flatMap fun s => bodyLine s.chars

/-- The text of a definition, decorators first. -/
def chars (f : Function) : List Char :=
  (f.decorators.flatMap fun d => '@' :: (d.chars ++ ['\n'])) ++
    "def ".toList ++ f.name.toList ++ '(' :: (commaSeparated (f.parameters.map Parameter.chars) ++ [')']) ++
    (match f.returns with
      | some t => " -> ".toList ++ t.chars
      | none => []) ++
    ":\n".toList ++ bodyChars f.body

def write (f : Function) : String := String.ofList f.chars

end Function
end PluginTools
