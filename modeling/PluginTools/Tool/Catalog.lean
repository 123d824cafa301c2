/-
The catalog of tools: the connection check first, then one tool a stub, in the order of the stubs. A
stub that bears the name of the check gives way to it.
-/
import PluginTools.Tool.Schema

namespace PluginTools

/-- What a call of a tool does. -/
inductive Action where
  | checkConnection
  | forward (stub : Stub)
deriving Repr, Inhabited

structure Tool where
  name : String
  description : String
  inputSchema : Json
  action : Action
deriving Repr, Inhabited

namespace Tool

/-- The tool that asks whether the plugin answers. -/
def checkConnection : Tool where
  name := "check_connection"
  description := "Check if the IDA plugin is running"
  inputSchema := .ofMembers [("type", .text "object"), ("properties", .object [])]
  action := .checkConnection

def ofStub (records : List Record) (s : Stub) : Tool where
  name := s.name
  description := s.description.getD ""
  inputSchema := s.inputSchema records
  action := .forward s

end Tool

structure Catalog where
  tools : List Tool
deriving Repr, Inhabited

namespace Catalog

def ofStubs (set : StubSet) : Catalog where
  tools := .checkConnection ::
    (set.stubs.filter fun s => s.name != Tool.checkConnection.name).map (Tool.ofStub set.records)

def names (c : Catalog) : List String := c.tools.map (·.name)

def get? (c : Catalog) (name : String) : Option Tool := c.tools.find? (·.name = name)

def size (c : Catalog) : Nat := c.tools.length

end Catalog
end PluginTools
