/-
Binding: the named arguments of a tool call put in the order of the stub's parameters. A literal
default stands in for an argument that is not given; any other default cannot.
-/
import PluginTools.Json.Value
import PluginTools.Stub.Stub

namespace PluginTools

/-- The value that a literal has as JSON; a float that is no finite number has none. -/
def Literal.toJson : Literal → Json
  | .text s => .text s
  | .int i => .int i
  | .float d => if d.isFinite then .float d else .null
  | .bool b => .bool b
  | .none => .null

/-- The arguments of a call, as the members of a JSON object. -/
abbrev Arguments := List (String × Json)

namespace Binding

inductive Fault where
  | unexpected (argument : String)
  | noLiteral (parameter : String)
  | missing (parameter : String)
deriving DecidableEq, Repr, Inhabited

def Fault.message (tool : String) : Fault → String
  | .unexpected a => tool ++ " got an unexpected argument: " ++ a
  | .noLiteral p => tool ++ ": parameter " ++ p ++ " has a non-literal default and must be provided"
  | .missing p => tool ++ ": missing required parameter " ++ p

/-- The value of one parameter. -/
def value (arguments : Arguments) (p : StubParameter) : Except Fault Json :=
  match Members.get? p.name arguments with
  | some v => .ok v
  | none =>
    match p.default with
    | some (.literal l) => .ok l.toJson
    | some _ => .error (.noLiteral p.name)
    | none => .error (.missing p.name)

def values (arguments : Arguments) : List StubParameter → Except Fault (List Json)
  | [] => .ok []
  | p :: rest => do
    let v ← value arguments p
    .ok (v :: (← values arguments rest))

/-- The first argument that no parameter takes. -/
def stranger? (parameters : List StubParameter) (arguments : Arguments) : Option String :=
  (arguments.map (·.1)).find? fun name => !parameters.any (·.name == name)

end Binding

/-- The arguments of a call by position, or the first fault. -/
def Stub.bind (s : Stub) (arguments : Arguments) : Except Binding.Fault (List Json) :=
  match Binding.stranger? s.parameters arguments with
  | some name => .error (.unexpected name)
  | none => Binding.values arguments s.parameters

end PluginTools
