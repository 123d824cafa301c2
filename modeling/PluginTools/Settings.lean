/-
Settings of a running bridge: where the plugin listens, how clients are served, and which files the
generation reads and writes.
-/

namespace PluginTools

/-- A host and a port. -/
structure Endpoint where
  host : String
  port : Nat
deriving DecidableEq, Repr, Inhabited

namespace Endpoint

/-- Where the plugin listens if nothing else is said. -/
def plugin : Endpoint := ⟨"localhost", 13337⟩

/-- Where clients are served if nothing else is said. -/
def service : Endpoint := ⟨"0.0.0.0", 8080⟩

/-- The address to which the plugin's requests go. -/
def address (e : Endpoint) : String := "http://" ++ e.host ++ ":" ++ toString e.port ++ "/mcp"

end Endpoint

/-- How clients are served: over the standard streams or over the network. -/
inductive Transport where
  | stdio
  | sse
deriving DecidableEq, Repr, Inhabited

namespace Transport

def name : Transport → String
  | .stdio => "stdio"
  | .sse => "sse"

def ofName? (s : String) : Option Transport :=
  [stdio, sse].find? (·.name = s)

end Transport

/-- The files of a generation: the plugin's source and the generated module. -/
structure Paths where
  plugin : String
  generated : String
deriving DecidableEq, Repr, Inhabited

namespace Paths

def pluginName : String := "mcp-plugin.py"

def generatedName : String := "server_generated.py"

/-- A file of a directory. -/
def join (directory file : String) : String :=
  if directory.isEmpty || directory.toList.getLast? == some '/' then directory ++ file
  else directory ++ "/" ++ file

/-- The files of that name in a directory. -/
def beside (directory : String) : Paths := ⟨join directory pluginName, join directory generatedName⟩

end Paths
end PluginTools
