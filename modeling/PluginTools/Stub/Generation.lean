/-
Generation: from a plugin's declarations to the functions that forward to it. Every exposed function
becomes one of the same signature whose body hands its arguments to the plugin, and every record is
kept as it stands. The first parameter that cannot be forwarded ends the generation.
-/
import PluginTools.Roster
import PluginTools.Stub.Vocabulary

namespace PluginTools

/-! ## What can be wrong with a parameter -/

/-- Why a subscripted type is no type with a description. -/
inductive Malformation where
  | wrapper (text : String)
  | slice (shape : String)
  | count (items : Nat)
  | description (shape : String)
deriving DecidableEq, Repr, Inhabited

inductive Offence where
  | unsupported
  | untyped
  | malformed (reason : Malformation)
  | unexpected (shape : String)
deriving DecidableEq, Repr, Inhabited

/-- The first offence that generation meets, and where. -/
structure Objection where
  function : String
  parameter : String
  offence : Offence
deriving DecidableEq, Repr, Inhabited

namespace Malformation

def message : Malformation → String
  | .wrapper text => "wrapper is \x60" ++ text ++ "\x60, expected \x60" ++ Vocabulary.described ++ "\x60"
  | .slice shape =>
    "expected " ++ Vocabulary.described ++ "[type, description], found " ++ Vocabulary.described ++ "[" ++
      shape ++ "]"
  | .count items => "expected 2 elements, found " ++ toString items
  | .description shape => "description must be a string constant, found " ++ shape

end Malformation

namespace Objection

def message (o : Objection) : String :=
  let place := o.function ++ "." ++ o.parameter
  match o.offence with
  | .unsupported =>
    "Unsupported parameter \x60" ++ o.parameter ++ "\x60 in " ++ o.function ++
      ": only positional-or-keyword parameters can be forwarded"
  | .untyped => "Missing argument type for " ++ place
  | .malformed reason => "Malformed Annotated type for " ++ place ++ ": " ++ reason.message
  | .unexpected shape => "Unexpected type annotation for " ++ place ++ " -> " ++ shape

end Objection

/-! ## Types and parameters -/

/-- The type of a parameter as it is generated: a bare name stays, a type with a description has it
moved into a descriptor, and nothing else is allowed. -/
def forwardType : Expr → Except Offence Expr
  | .name id => .ok (.name id)
  | .subscript wrapper slice =>
    if wrapper.isName Vocabulary.described then
      match slice with
      | .tuple [type, description] =>
        match description.text? with
        | some text => .ok (Vocabulary.describedType type text)
        | none => .error (.malformed (.description description.shape))
      | .tuple items => .error (.malformed (.count items.length))
      | slice => .error (.malformed (.slice slice.shape))
    else .error (.malformed (.wrapper wrapper.write))
  | other => .error (.unexpected other.shape)

def forwardParameter (p : Parameter) : Except Offence Parameter :=
  match p.kind, p.type with
  | .unsupported, _ => .error .unsupported
  | .positional, none => .error .untyped
  | .positional, some type => do .ok { p with type := some (← forwardType type) }

/-- The parameters of a function, each forwarded in turn. -/
def forwardParameters (function : String) : List Parameter → Except Objection (List Parameter)
  | [] => .ok []
  | p :: rest =>
    match forwardParameter p with
    | .error offence => .error ⟨function, p.name, offence⟩
    | .ok p => do .ok (p :: (← forwardParameters function rest))

/-! ## Functions -/

/-- The call that hands arguments of the given names to the plugin's method. -/
def forwardCall (method : String) (names : List String) : Expr :=
  .call (.name Vocabulary.forwarder) (.text method :: names.map .name) []

/-- The function that forwards to an exposed one: same name, parameters and result, its docstring, and
the call. -/
def forwardFunction (f : Function) : Except Objection Function := do
  let parameters ← forwardParameters f.name f.parameters
  let opening : List Statement := match f.docstring? with
    | some text => [.expression (.text text)]
    | none => []
  .ok {
    name := f.name
    decorators := [Vocabulary.toolMark]
    parameters
    returns := f.returns
    body := opening ++ [.result (some (forwardCall f.name (parameters.map (·.name))))]
    line := f.line }

/-- Records and forwarding functions, each under its name. -/
structure Generated where
  records : Roster Class := {}
  functions : Roster Function := {}
deriving Repr, Inhabited

namespace Generated

/-- Takes one more declaration into account. -/
def add (g : Generated) : Declaration → Except Objection Generated
  | .ofFunction f =>
    if f.isMarked Vocabulary.exposed then do
      .ok { g with functions := g.functions.insert f.name (← forwardFunction f) }
    else .ok g
  | .ofClass c =>
    if c.hasBase Vocabulary.recordBase then .ok { g with records := g.records.insert c.name c } else .ok g
  | .other => .ok g

def addAll (g : Generated) : List Declaration → Except Objection Generated
  | [] => .ok g
  | d :: rest => do (← g.add d).addAll rest

end Generated

/-- All records and forwarding functions of a plugin, or the first objection. -/
def generate (declarations : List Declaration) : Except Objection Generated :=
  ({} : Generated).addAll declarations

end PluginTools
