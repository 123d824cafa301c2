/-
Requests to the plugin and the text in which results are shown: a request is one line of JSON whose
members keep their order, a result is itself if it is a string and laid out JSON if not.
-/
import PluginTools.Json.Writer

namespace PluginTools

/-- A call of a method of the plugin. -/
structure Request where
  method : String
  parameters : List Json
  id : Nat
deriving Repr, Inhabited

namespace Request

def protocolVersion : String := "2.0"

/-- The members of a request in the order in which they are sent. -/
def members (r : Request) : List (String × Json) :=
  [("jsonrpc", .text protocolVersion), ("method", .text r.method), ("params", .list r.parameters),
    ("id", .int r.id)]

def write (r : Request) : String := (Json.object r.members).compact

end Request

/-- The text of a result. -/
def Json.shown : Json → String
  | .text s => s
  | v => v.pretty

end PluginTools
