/-
The names by which a plugin's source and its generated module say what they mean: the mark of an
exposed function, the base of a record, the wrapper of a described type and the helper that forwards.
-/
import PluginTools.Source.Definition

namespace PluginTools.Vocabulary

/-- The decorator of a plugin function that is exposed as a tool. -/
def exposed : String := "jsonrpc"

/-- The base of a class that describes a record. -/
def recordBase : String := "TypedDict"

/-- The wrapper of a type that carries a description. -/
def described : String := "Annotated"

/-- The call that holds a description in a generated module, and its keyword. -/
def descriptor : String := "Field"

def descriptorKeyword : String := "description"

/-- The helper to which every generated function forwards. -/
def forwarder : String := "make_jsonrpc_request"

/-- The decorator of a generated function, `mcp.tool()`. -/
def toolMark : Expr := .call (.attribute (.name "mcp") "tool") [] []

/-- The type `type` with a description in a generated module. -/
def describedType (type : Expr) (description : String) : Expr :=
  .subscript (.name described)
    (.tuple [type, .call (.name descriptor) [] [(descriptorKeyword, .text description)]])

end PluginTools.Vocabulary
