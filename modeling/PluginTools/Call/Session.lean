/-
Sessions: a catalog of tools, a client that numbers its requests, and what each operation sends and
answers, given how the plugin reacts. A request is numbered and sent before its answer is known, so a
call that fails has used its number too; an operation that is refused beforehand sends nothing.
-/
import PluginTools.Call.Request
import PluginTools.Call.Response
import PluginTools.Tool.Catalog

namespace PluginTools

/-- How the plugin reacts to a request: it answers with a status and a body, or the connection fails
before that. -/
inductive Reaction where
  | answer (status : Nat) (body : Json.Token.Source)
  | failure
deriving Repr, Inhabited

/-- A client of the plugin at an address, with the number that its next request gets. Numbers have
sixty-four bits, and behind the last of them the count starts over. -/
structure Client where
  address : String
  next : UInt64 := 1
deriving Repr, Inhabited

namespace Client

/-- The number of requests issued so far, failed ones included. -/
def issued (c : Client) : Nat := (c.next - 1).toNat

/-- The next request of a client. -/
def request (c : Client) (method : String) (parameters : List Json) : Request :=
  ⟨method, parameters, c.next.toNat⟩

/-- The client after it issued a request. -/
def advance (c : Client) : Client := { c with next := c.next + 1 }

/-- What a reaction means for a call; the status of an answer does not matter. -/
def outcome (c : Client) : Reaction → Except CallFailure Json
  | .failure => .error (.unreached c.address)
  | .answer _ body =>
    match Response.read? body with
    | none => .error .unreadable
    | some r => r.outcome

end Client

/-! ## Outcomes -/

/-- The code under which an unknown tool is reported. -/
def invalidParameters : Int := -32602

/-- The answer to an operation. -/
inductive Answer where
  /-- The operation is no tool call that can be made. -/
  | protocolError (code : Int) (message : String)
  | toolResult (isError : Bool) (text : String)
  | callResult (outcome : Except CallFailure Json)
  | connection (text : String)

namespace Answer

def unknownTool (name : String) : Answer := .protocolError invalidParameters ("Unknown tool: " ++ name)

/-- A call that could not be made because of its arguments. -/
def unbound (tool : String) (fault : Binding.Fault) : Answer :=
  .toolResult true ("Invalid parameters: " ++ fault.message tool)

/-- The result of a tool that forwards. -/
def ofOutcome : Except CallFailure Json → Answer
  | .ok v => .toolResult false v.shown
  | .error e => .toolResult true e.message

end Answer

namespace Connection

/-- The method that tells whether the plugin answers. -/
def probe : String := "get_metadata"

/-- The keys that start the plugin. -/
def shortcut : String := "Ctrl+Alt+M"

def hint : String :=
  "Failed to connect to IDA Pro! Did you run Edit -> Plugins -> MCP (" ++ shortcut ++
    ") to start the server?"

def success (module : String) : String :=
  "Successfully connected to IDA Pro (open file: " ++ module ++ ")"

/-- What is said about the connection: the plugin answers if it names the open module. -/
def report (outcome : Except CallFailure Json) : String :=
  match outcome with
  | .ok v =>
    match (v.member? "module").bind Json.text? with
    | some module => success module
    | none => hint
  | .error _ => hint

end Connection

/-! ## Operations -/

/-- What a user of a session does. -/
inductive Operation where
  | dispatch (tool : String) (arguments : Arguments)
  | call (method : String) (parameters : List Json)
  | checkConnection
deriving Repr, Inhabited

structure Session where
  catalog : Catalog
  client : Client
deriving Repr, Inhabited

/-- What one operation did. -/
structure Step where
  sent : Option Request
  answer : Answer

namespace Session

/-- Sends a request and reads the answer off the plugin's reaction. -/
def exchange (s : Session) (method : String) (parameters : List Json) (reaction : Reaction)
    (answer : Except CallFailure Json → Answer) : Session × Step :=
  ({ s with client := s.client.advance },
    ⟨some (s.client.request method parameters), answer (s.client.outcome reaction)⟩)

/-- Answers without a request. -/
def refuse (s : Session) (answer : Answer) : Session × Step := (s, ⟨none, answer⟩)

/-- One operation; the reaction is that of the plugin to the request, if one is sent. -/
def step (s : Session) (reaction : Reaction) : Operation → Session × Step
  | .dispatch tool arguments =>
    match s.catalog.get? tool with
    | none => s.refuse (.unknownTool tool)
    | some t =>
      match t.action with
      | .checkConnection =>
        s.exchange Connection.probe [] reaction fun o => .toolResult false (Connection.report o)
      | .forward stub =>
        match stub.bind arguments with
        | .error fault => s.refuse (.unbound stub.name fault)
        | .ok parameters => s.exchange stub.name parameters reaction .ofOutcome
  | .call method parameters => s.exchange method parameters reaction .callResult
  | .checkConnection => s.exchange Connection.probe [] reaction fun o => .connection (Connection.report o)

/-- Operations one after another, each with the plugin's reaction to it. -/
def run (s : Session) : List (Operation × Reaction) → Session × List Step
  | [] => (s, [])
  | (operation, reaction) :: rest =>
    let (s, step) := s.step reaction operation
    let (s, steps) := s.run rest
    (s, step :: steps)

/-- What a session tells its user to begin with. -/
def instructions (s : Session) : String :=
  "Bridge to the IDA Pro MCP plugin running inside the IDA GUI. " ++
    "\n\nEvery tool forwards one call to the plugin at " ++ s.client.address ++ ". " ++
    "\nCall check_connection first; if it fails, start the plugin in IDA with Edit -> Plugins -> MCP (" ++
    Connection.shortcut ++ ")."

end Session
end PluginTools
