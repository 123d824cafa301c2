/-
Stubs: what a forwarding function offers to its callers, read off its definition. A definition is one
only if its body is exactly the call that forwards its own parameters under its own name.
-/
import PluginTools.Stub.Vocabulary

namespace PluginTools

structure StubParameter where
  name : String
  /-- The declared type, without the wrapper of a description. -/
  type : Expr
  description : Option String
  default : Option Expr
deriving Repr, Inhabited

namespace StubParameter

def isRequired (p : StubParameter) : Bool := p.default.isNone

end StubParameter

/-- A tool that forwards one call to the plugin. -/
structure Stub where
  name : String
  description : Option String
  parameters : List StubParameter
  returns : Option Expr
deriving Repr, Inhabited

/-- Why a definition is no forwarding stub. -/
inductive Refusal.Reason where
  | unsupported (parameter : String)
  | untyped (parameter : String)
  | body
  | callee
  | noMethod
  | method (text : String)
  | arguments
deriving DecidableEq, Repr, Inhabited

structure Refusal where
  function : String
  reason : Refusal.Reason
deriving DecidableEq, Repr, Inhabited

namespace Refusal

def Reason.message : Reason → String
  | .unsupported p => "unsupported parameter \x60" ++ p ++ "\x60"
  | .untyped p => "parameter \x60" ++ p ++ "\x60 has no type"
  | .body => "body must be a single \x60return " ++ Vocabulary.forwarder ++ "(...)\x60"
  | .callee => "body does not call " ++ Vocabulary.forwarder
  | .noMethod => "call has no method name"
  | .method text => "forwards to method " ++ text
  | .arguments => "forwarded arguments do not match the parameter list"

def message (r : Refusal) : String := r.function ++ " is not a forwarding stub: " ++ r.reason.message

end Refusal

namespace Stub

/-- The string that a keyword has among others; of two uses of the keyword the first counts. -/
def keywordText? (keyword : String) : List (String × Expr) → Option String
  | [] => none
  | (k, e) :: rest => if k = keyword then e.text? else keywordText? keyword rest

/-- A type and the description it carries, if it is a type with a descriptor. -/
def splitType : Expr → Expr × Option String
  | .subscript wrapper (.tuple [type, .call function arguments keywords]) =>
    if wrapper.isName Vocabulary.described && function.isName Vocabulary.descriptor then
      (type, keywordText? Vocabulary.descriptorKeyword keywords)
    else (.subscript wrapper (.tuple [type, .call function arguments keywords]), none)
  | type => (type, none)

def parameterOf (p : Parameter) : Except Refusal.Reason StubParameter :=
  match p.kind, p.type with
  | .unsupported, _ => .error (.unsupported p.name)
  | .positional, none => .error (.untyped p.name)
  | .positional, some type =>
    let (type, description) := splitType type
    .ok { name := p.name, type, description, default := p.default }

def parametersOf : List Parameter → Except Refusal.Reason (List StubParameter)
  | [] => .ok []
  | p :: rest => do
    let p ← parameterOf p
    .ok (p :: (← parametersOf rest))

/-- Whether arguments are the bare names of parameters, one for one. -/
def forwards : List Expr → List StubParameter → Bool
  | [], [] => true
  | e :: es, p :: ps => e.isName p.name && forwards es ps
  | _, _ => false

/-- Checks the call in the body of a function. -/
def checkCall (name : String) (parameters : List StubParameter) : Expr → Except Refusal.Reason Unit
  | .call callee arguments keywords =>
    if !callee.isName Vocabulary.forwarder || !keywords.isEmpty then .error .callee
    else match arguments with
      | [] => .error .noMethod
      | method :: rest =>
        if method.text? != some name then .error (.method method.write)
        else if forwards rest parameters then .ok ()
        else .error .arguments
  | _ => .error .body

/-- Checks that, after the docstring, a body is a single call that is returned. -/
def checkBody (f : Function) (parameters : List StubParameter) : Except Refusal.Reason Unit :=
  match if f.docstring?.isSome then f.body.tail else f.body with
  | [.result (some call)] => checkCall f.name parameters call
  | _ => .error .body

/-- The stub of a definition, or the first reason why it is none. -/
def ofFunction (f : Function) : Except Refusal Stub :=
  match parametersOf f.parameters with
  | .error reason => .error ⟨f.name, reason⟩
  | .ok parameters =>
    match checkBody f parameters with
    | .error reason => .error ⟨f.name, reason⟩
    | .ok () => .ok { name := f.name, description := f.docstring?, parameters, returns := f.returns }

end Stub
end PluginTools
