/-
Responses of the plugin. Only the members that matter are read: others need not even have values, as
long as they are written correctly. An error counts before a result, and a result of null is shown as
success.
-/
import PluginTools.Json.Reader
import PluginTools.Json.Writer

namespace PluginTools

/-- An error that the plugin reports. -/
structure RemoteError where
  code : Int
  message : String
  data : Option Json
deriving Repr, Inhabited

structure Response where
  result : Option Json
  error : Option RemoteError
deriving Repr, Inhabited

/-- Why a call gave no result. -/
inductive CallFailure where
  | remote (error : RemoteError)
  | unreached (address : String)
  | unreadable
  | noOutcome
deriving Repr, Inhabited

namespace CallFailure

/-- The data of an error behind its message: a string as it is, anything else as JSON. -/
def dataSuffix : Option Json → String
  | none => ""
  | some (.text s) => "\n" ++ s
  | some v => "\n" ++ v.compact

def message : CallFailure → String
  | .remote e => "JSON-RPC error " ++ toString e.code ++ ": " ++ e.message ++ dataSuffix e.data
  | .unreached address =>
    "HTTP request to IDA plugin failed: error sending request for url (" ++ address ++ ")"
  | .unreadable => "Invalid JSON-RPC response: <decode>"
  | .noOutcome => "Invalid JSON-RPC response: response has neither result nor error"

end CallFailure

namespace Json.Tree

/-- A member by name among others that are passed over. Every name has to be readable, and a name that
is asked for may occur only once; the outer option tells whether that is so. -/
def member? (name : String) : List (Option String × Tree) → Option (Option Tree)
  | [] => some none
  | (none, _) :: _ => none
  | (some n, v) :: rest =>
    match member? name rest with
    | none => none
    | some found =>
      if n = name then (if found.isSome then none else some (some v)) else some found

/-- A string. -/
def text? : Tree → Option String
  | .text s => s
  | _ => none

/-- The codes of errors are whole numbers of sixty-four bits with a sign. -/
def code? : Tree → Option Int
  | .number (some (.int i)) => if i < Int.pow 2 63 then some i else none
  | _ => none

/-- A value that may be missing or null. -/
def optional? (depth : Nat) : Option Tree → Option (Option Json)
  | none | some .null => some none
  | some v => (value? depth v).map some

end Json.Tree

open Json (Tree)

namespace RemoteError

/-- An error from its parts, whose values may be so many levels deep. -/
def ofParts? (depth : Nat) (code message : Tree) (data : Option Tree) : Option RemoteError := do
  some ⟨← code.code?, ← message.text?, ← Tree.optional? depth data⟩

/-- An error given by its members or as a list of its parts in order. -/
def ofTree? (depth : Nat) : Tree → Option RemoteError
  | .object ms => do
    let data ← Tree.member? "data" ms
    ofParts? depth (← (← Tree.member? "code" ms)) (← (← Tree.member? "message" ms)) data
  | .list [code, message] => ofParts? depth code message none
  | .list [code, message, data] => ofParts? depth code message (some data)
  | _ => none

end RemoteError

namespace Response

/-- A response from its parts. A result of null is a result, an error of null is none. -/
def ofParts? (result error : Option Tree) : Option Response := do
  let result ← match result with
    | none => some none
    | some v => (Tree.value? (Tree.maxDepth - 1) v).map some
  let error ← match error with
    | none | some .null => some none
    | some e => (RemoteError.ofTree? (Tree.maxDepth - 2) e).map some
  some ⟨result, error⟩

/-- A response given by its members or as a list of its parts in order. -/
def ofTree? : Tree → Option Response
  | .object ms => do ofParts? (← Tree.member? "result" ms) (← Tree.member? "error" ms)
  | .list [] => ofParts? none none
  | .list [result] => ofParts? (some result) none
  | .list [result, error] => ofParts? (some result) (some error)
  | _ => none

/-- Reads the body of an answer. -/
def read? (body : Json.Token.Source) : Option Response := (Tree.ofSource? body).bind ofTree?

/-- What a result of null is turned into. -/
def success : Json := .text "success"

/-- The outcome that a response stands for. -/
def outcome (r : Response) : Except CallFailure Json :=
  match r.error, r.result with
  | some e, _ => .error (.remote e)
  | none, some .null => .ok success
  | none, some v => .ok v
  | none, none => .error .noOutcome

end Response
end PluginTools
