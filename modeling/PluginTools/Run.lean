/-
A generation run: read the plugin's source, generate, write the module and read it back. What can go
wrong is one of a few failures, each told with its causes; a run that fails before the module is written
leaves all files as they were.
-/
import PluginTools.Disk
import PluginTools.Settings
import PluginTools.Source.Parser
import PluginTools.Source.Position
import PluginTools.Stub.Artifact
import PluginTools.Text.Utf8
import PluginTools.Tool.Catalog

namespace PluginTools

/-- Why a run failed; paths are as they were given, and a place in a source is known or not. -/
inductive RunFailure where
  | notFound (plugin : String)
  | unreadable (plugin : String)
  | malformedPlugin (plugin : String) (place : Option Position)
  | objection (plugin : String) (objection : Objection)
  | unwritable (generated : String) (reason : String)
  | malformedModule (generated : String) (place : Option Position)
  | refusal (generated : String) (refusal : Refusal)
deriving Repr, Inhabited

namespace RunFailure

/-- What is said of a malformed source. -/
def malformed : Option Position → String
  | some p => "syntax error at line " ++ toString p.line ++ ", column " ++ toString p.column
  | none => "syntax error"

def notText : String := "stream did not contain valid UTF-8"

/-- A failure and its causes, the outermost first. -/
def causes : RunFailure → List String
  | .notFound path => ["IDA plugin not found at " ++ path ++ " (did you move it?)"]
  | .unreadable path => ["Failed to read " ++ path ++ ": " ++ notText, notText]
  | .malformedPlugin path place =>
    ["failed to generate stubs from " ++ path, "Failed to parse definition file: " ++ malformed place,
      malformed place]
  | .objection path o => ["failed to generate stubs from " ++ path, o.message]
  | .unwritable path reason => ["failed to write " ++ path, reason]
  | .malformedModule path place =>
    ["failed to load " ++ path, "Failed to parse generated module: " ++ malformed place, malformed place]
  | .refusal path r => ["failed to load " ++ path, r.message]

end RunFailure

/-! ## Reports -/

namespace Report

/-- A text whose further lines stand as far to the right as its first. -/
def indent (first further : List Char) (text : String) : List Char :=
  first ++ text.toList.flatMap fun c => if c = '\n' then '\n' :: further else [c]

/-- A number at the right edge of five columns. -/
def number (n : Nat) : List Char :=
  let digits := Nat.toDigits 10 n
  List.replicate (5 - digits.length) ' ' ++ digits ++ [':', ' ']

def blanks (n : Nat) : List Char := List.replicate n ' '

/-- The causes one after another, with numbers if there are several. -/
def causeLines : List String → List Char
  | [] => []
  | [cause] => '\n' :: indent (blanks 4) (blanks 4) cause
  | causes =>
    (List.range causes.length).zip causes |>.flatMap fun (n, cause) =>
      '\n' :: indent (number n) (blanks 7) cause

/-- A report of an error and its causes. -/
def write : List String → String
  | [] => ""
  | error :: causes =>
    "Error: " ++ error ++
      (if causes.isEmpty then "" else "\n\nCaused by:" ++ String.ofList (causeLines causes))

end Report

/-! ## Steps -/

namespace Run

/-- The text of the plugin's source. -/
def definition (paths : Paths) (content : Option (List UInt8)) : Except RunFailure (List Char) :=
  match content with
  | none => .error (.notFound paths.plugin)
  | some octets =>
    match Utf8.text? octets with
    | none => .error (.unreadable paths.plugin)
    | some text => .ok text

/-- What is generated from the text of a source; `locate` finds the place where it is malformed. -/
def artifact (locate : List Char → Option Position) (paths : Paths) (source : List Char) :
    Except RunFailure Generated :=
  match Source.parse? source with
  | none => .error (.malformedPlugin paths.plugin (locate source))
  | some declarations =>
    match generate declarations with
    | .error o => .error (.objection paths.plugin o)
    | .ok g => .ok g

/-- The stubs of a generated module's text. -/
def load (locate : List Char → Option Position) (paths : Paths) (text : List Char) :
    Except RunFailure StubSet :=
  match Source.parse? text with
  | none => .error (.malformedModule paths.generated (locate text))
  | some declarations =>
    match StubSet.load declarations with
    | .error r => .error (.refusal paths.generated r)
    | .ok set => .ok set

def octets (text : List Char) : List UInt8 := (String.ofList text).toUTF8.toList

/-- Reads, generates and writes; gives the text that was written. -/
def emit (locate : List Char → Option Position) (paths : Paths) (disk : Disk) :
    Except RunFailure (List Char × Disk) := do
  let source ← definition paths (disk.read? paths.plugin)
  let text := (← artifact locate paths source).chars
  match disk.write paths.generated (octets text) with
  | .error fault => .error (.unwritable paths.generated fault.message)
  | .ok disk => .ok (text, disk)

/-- A whole run: its outcome and the files after it. -/
def prepare (locate : List Char → Option Position) (paths : Paths) (disk : Disk) :
    Except RunFailure StubSet × Disk :=
  match emit locate paths disk with
  | .error failure => (.error failure, disk)
  | .ok (text, disk) => (load locate paths text, disk)

/-- What a command ends with: its exit code and what it writes to the two outputs. -/
structure Ending where
  code : Nat
  output : String
  errors : String
deriving DecidableEq, Repr, Inhabited

/-- The ending of a generation: the names of the tools, or a report. -/
def ending : Except RunFailure StubSet → Ending
  | .ok set => ⟨0, String.join ((Catalog.ofStubs set).names.map (· ++ "\n")), ""⟩
  | .error failure => ⟨1, "", Report.write failure.causes ++ "\n"⟩

end Run
end PluginTools
