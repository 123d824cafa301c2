/-
The stubs and records of a generated module, built from the generated definitions themselves or read
back from the module's text. Both ways apply the same check to every definition.
-/
import PluginTools.Stub.Generation
import PluginTools.Stub.Stub

namespace PluginTools

/-- A record by its name and the types of its fields. -/
structure Record where
  name : String
  fields : List (String × Expr)
deriving Repr, Inhabited

def Record.ofClass (c : Class) : Record := ⟨c.name, c.fields⟩

structure StubSet where
  records : List Record
  stubs : List Stub
deriving Repr, Inhabited

/-! ## Equality -/

/-- Equality of optional expressions; floats are compared as numbers. -/
def Expr.sameOption : Option Expr → Option Expr → Bool
  | none, none => true
  | some a, some b => a.same b
  | _, _ => false

/-- Equality of lists by a comparison of their items. -/
def sameAll (same : α → α → Bool) : List α → List α → Bool
  | [], [] => true
  | a :: as, b :: bs => same a b && sameAll same as bs
  | _, _ => false

namespace StubParameter

def same (a b : StubParameter) : Bool :=
  a.name == b.name && a.type.same b.type && a.description == b.description &&
    Expr.sameOption a.default b.default

end StubParameter

namespace Stub

def same (a b : Stub) : Bool :=
  a.name == b.name && a.description == b.description && sameAll StubParameter.same a.parameters b.parameters &&
    Expr.sameOption a.returns b.returns

end Stub

namespace Record

def same (a b : Record) : Bool :=
  a.name == b.name && sameAll (fun x y => x.1 == y.1 && x.2.same y.2) a.fields b.fields

end Record

namespace StubSet

def same (a b : StubSet) : Bool :=
  sameAll Record.same a.records b.records && sameAll Stub.same a.stubs b.stubs

def stub? (s : StubSet) (name : String) : Option Stub := s.stubs.find? (·.name = name)

/-! ## Building -/

/-- The stubs of definitions, or the first refusal. -/
def stubsOf : List Function → Except Refusal (List Stub)
  | [] => .ok []
  | f :: rest => do
    let stub ← Stub.ofFunction f
    .ok (stub :: (← stubsOf rest))

def ofDefinitions (records : List Class) (functions : List Function) : Except Refusal StubSet := do
  .ok { records := records.map Record.ofClass, stubs := (← stubsOf functions) }

/-- The definitions of a generated module that count: classes with the record base and functions with
the tool mark. -/
def recordClass? : Declaration → Option Class
  | .ofClass c => if c.hasBase Vocabulary.recordBase then some c else none
  | _ => none

def toolFunction? : Declaration → Option Function
  | .ofFunction f => if f.decorators.any (·.same Vocabulary.toolMark) then some f else none
  | _ => none

/-- The stub set of a generated module; a later definition takes the place of an earlier one of its name. -/
def load (declarations : List Declaration) : Except Refusal StubSet :=
  let records := Roster.ofList (declarations.filterMap recordClass?) (·.name)
  let functions := Roster.ofList (declarations.filterMap toolFunction?) (·.name)
  ofDefinitions records.values functions.values

end StubSet

/-- The stub set of what was generated, without its text. -/
def Generated.stubs (g : Generated) : Except Refusal StubSet :=
  StubSet.ofDefinitions g.records.values g.functions.values

end PluginTools
