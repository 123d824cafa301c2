/-
JSON schemas of types. A type whose meaning is unknown is left unconstrained. Records are written out
where they are named, except inside themselves and below a fixed depth, where a bare object stands for
them; so every type has a schema, whatever its records refer to.
-/
import PluginTools.Stub.StubSet
import PluginTools.Tool.Binding

namespace PluginTools

/-- The constraints a type puts on a value. -/
inductive Schema where
  | any
  | kind (name : String)
  | list (items : Schema)
  | mapping (value : Schema)
  | oneOf (options : List Schema)
  | enumeration (allowed : List Json)
  | record (title : String) (fields : List (String × Schema))
deriving Repr, Inhabited

namespace Schema

def string : Schema := .kind "string"
def integer : Schema := .kind "integer"
def number : Schema := .kind "number"
def boolean : Schema := .kind "boolean"
def array : Schema := .kind "array"
def object : Schema := .kind "object"
def null : Schema := .kind "null"

/-! ## Schemas as JSON -/

/-- The list of names that a schema requires. -/
def nameList (names : List String) : Json := .list (names.map .text)

mutual

def members : Schema → List (String × Json)
  | .any => []
  | .kind name => [("type", .text name)]
  | .list items => [("type", .text "array"), ("items", .ofMembers items.members)]
  | .mapping value => [("type", .text "object"), ("additionalProperties", .ofMembers value.members)]
  | .oneOf options => [("anyOf", .list (optionList options))]
  | .enumeration allowed => [("enum", .list allowed)]
  | .record title fields =>
    [("type", .text "object"), ("title", .text title), ("properties", .ofMembers (fieldMembers fields)),
      ("required", nameList (fields.map (·.1)))]

def optionList : List Schema → List Json
  | [] => []
  | s :: rest => .ofMembers s.members :: optionList rest

def fieldMembers : List (String × Schema) → List (String × Json)
  | [] => []
  | (n, s) :: rest => (n, .ofMembers s.members) :: fieldMembers rest

end

def toJson (s : Schema) : Json := .ofMembers s.members

/-! ## Names -/

/-- How deep records are written out inside records. -/
def maxDepth : Nat := 8

/-- The schema of a type that is known by its name alone. -/
def builtin? : String → Option Schema
  | "str" => some string
  | "int" => some integer
  | "float" => some number
  | "bool" => some boolean
  | "list" | "List" => some array
  | "dict" | "Dict" => some object
  | "None" => some null
  | _ => none

/-! ## Generic types -/

/-- The literals among expressions, as JSON. -/
def literals : List Expr → List Json
  | [] => []
  | .literal l :: rest => l.toJson :: literals rest
  | _ :: rest => literals rest

/-- The schema of a generic type from the schemas of its arguments and the literals among them. -/
def generic (wrapper : String) (allowed : List Json) : List Schema → Schema
  | arguments =>
    match wrapper, arguments with
    | "list", [item] | "List", [item] | "Sequence", [item] | "set", [item] | "Set", [item] => .list item
    | "tuple", item :: _ | "Tuple", item :: _ => .list item
    | "dict", [_, value] | "Dict", [_, value] => .mapping value
    | "Optional", [inner] => .oneOf [inner, null]
    | "Union", options => .oneOf options
    | "Literal", _ => .enumeration allowed
    | "Annotated", inner :: _ => inner
    | "list", _ | "List", _ | "tuple", _ | "Tuple", _ => array
    | "dict", _ | "Dict", _ => object
    | _, _ => .any

/-- Whether the expression is a union of two types. -/
def isUnion : Expr → Bool
  | .binary _ operator _ => operator == "|"
  | _ => false

/-- One schema for the alternatives of a type. -/
def join (union : Bool) (alternatives : List Schema) : Schema :=
  if union then .oneOf alternatives else alternatives.headD .any

mutual

/-- The schemas of the alternatives of a type, where `named` gives those of names. A type that is no
union is its own sole alternative. -/
def alternatives (named : String → Schema) : Expr → List Schema
  | .name id => [named id]
  | .literal .none => [null]
  | .literal (.text forward) => [named forward]
  | .subscript wrapper (.tuple items) =>
    [generic (wrapper.name?.getD "") (literals items) (arguments named items)]
  | .subscript wrapper slice =>
    [generic (wrapper.name?.getD "") (literals [slice]) [join (isUnion slice) (alternatives named slice)]]
  | .binary left operator right =>
    if operator == "|" then alternatives named left ++ alternatives named right else [.any]
  | _ => [.any]

/-- The schemas of the arguments of a generic type. -/
def arguments (named : String → Schema) : List Expr → List Schema
  | [] => []
  | e :: rest => join (isUnion e) (alternatives named e) :: arguments named rest

end

/-- The schema of a type, where `named` gives those of names. -/
def ofExpr (named : String → Schema) (e : Expr) : Schema := join (isUnion e) (alternatives named e)

/-! ## Records -/

/-- The schema of a name inside the records already entered, of which `room` more may be entered. -/
def ofName (records : List Record) : Nat → List String → String → Schema
  | room, entered, name =>
    match builtin? name with
    | some s => s
    | none =>
      match records.find? (·.name = name) with
      | none => .any
      | some r =>
        match room with
        | 0 => object
        | room + 1 =>
          if entered.contains name then object
          else .record name
            (r.fields.map fun (n, type) => (n, ofExpr (ofName records room (name :: entered)) type))

/-- The schema of a type among records. -/
def ofType (records : List Record) (type : Expr) : Schema := ofExpr (ofName records maxDepth []) type

end Schema

/-! ## Input schemas -/

namespace StubParameter

/-- The default that a caller may rely on, if it is a literal. -/
def defaultJson? (p : StubParameter) : Option Json :=
  match p.default with
  | some (.literal l) => some l.toJson
  | _ => none

/-- The schema of a parameter: that of its type, with its description and default. -/
def schema (records : List Record) (p : StubParameter) : Json :=
  .ofMembers ((Schema.ofType records p.type).members ++
    (p.description.map fun d => ("description", Json.text d)).toList ++
    (p.defaultJson?.map fun d => ("default", d)).toList)

end StubParameter

namespace Stub

/-- The parameters that a call has to give, in order. -/
def requiredNames (s : Stub) : List String := (s.parameters.filter (·.isRequired)).map (·.name)

/-- The schema of a call's arguments; the list of required ones is left out when it is empty. -/
def inputSchema (records : List Record) (s : Stub) : Json :=
  .ofMembers
    ([("type", .text "object"),
      ("properties", .ofMembers (s.parameters.map fun p => (p.name, p.schema records)))] ++
    if s.requiredNames.isEmpty then [] else [("required", Schema.nameList s.requiredNames)])

end Stub
end PluginTools
