/-
The command line: options with one value each, and the command to run. Arguments are taken in order, and
the first that cannot be understood decides; asking for the version or for help ends the reading.
-/
import PluginTools.Number.Reading
import PluginTools.Settings

namespace PluginTools

/-- What the options say; an option that is not given has no value here. -/
structure Options where
  host : Option String := none
  port : Option Nat := none
  transport : Option Transport := none
  pluginHost : Option String := none
  pluginPort : Option Nat := none
  timeout : Option Nat := none
  plugin : Option String := none
  generated : Option String := none
  origins : List String := []
deriving DecidableEq, Repr, Inhabited

/-- What a command line asks for. -/
inductive Invocation where
  | version
  | help
  | generate (options : Options)
  | serve (options : Options)
deriving DecidableEq, Repr, Inhabited

namespace Options

/-- The origins that are allowed if nothing else is said. -/
def defaultOrigins : List String := ["http://localhost", "http://127.0.0.1"]

def allowedOrigins (o : Options) : List String := if o.origins.isEmpty then defaultOrigins else o.origins

/-- The files to use, next to the program where nothing else is said. -/
def paths (o : Options) (directory : String) : Paths where
  plugin := o.plugin.getD (Paths.beside directory).plugin
  generated := o.generated.getD (Paths.beside directory).generated

/-- Where the plugin listens. -/
def endpoint (o : Options) : Endpoint :=
  ⟨o.pluginHost.getD Endpoint.plugin.host, o.pluginPort.getD Endpoint.plugin.port⟩

end Options

namespace CommandLine

/-! ## Values -/

/-- A whole number with a sign, which may be a plus. -/
def number? (text : String) : Option Int :=
  match text.toList with
  | '-' :: cs => (Number.whole? 10 cs).map fun n => -(n : Int)
  | '+' :: cs => (Number.whole? 10 cs).map Int.ofNat
  | cs => (Number.whole? 10 cs).map Int.ofNat

/-- A port. -/
def port? (text : String) : Option Nat :=
  (number? text).bind fun n => if 0 ≤ n ∧ n < Int.pow 2 16 then some n.toNat else none

/-- A number of seconds, without a minus sign. -/
def seconds? (text : String) : Option Nat :=
  if text.toList.head? = some '-' then none
  else (number? text).bind fun n => if n < Int.pow 2 64 then some n.toNat else none

/-- A path, which is never empty. -/
def path? (text : String) : Option String := if text.isEmpty then none else some text

/-- Sets what is given once; a second time is refused. -/
def once (old : Option α) (new : Option α) : Option (Option α) :=
  match old, new with
  | none, some v => some (some v)
  | _, _ => none

/-- The options with one more value; none if the option is unknown, given twice or has no such value. -/
def set? (o : Options) (name value : String) : Option Options :=
  match name with
  | "host" => (once o.host (some value)).map fun v => { o with host := v }
  | "port" => (once o.port (port? value)).map fun v => { o with port := v }
  | "transport" => (once o.transport (Transport.ofName? value)).map fun v => { o with transport := v }
  | "ida-host" => (once o.pluginHost (some value)).map fun v => { o with pluginHost := v }
  | "ida-port" => (once o.pluginPort (port? value)).map fun v => { o with pluginPort := v }
  | "ida-timeout-secs" => (once o.timeout (seconds? value)).map fun v => { o with timeout := v }
  | "plugin-path" => (once o.plugin (path? value)).map fun v => { o with plugin := v }
  | "generated-path" => (once o.generated (path? value)).map fun v => { o with generated := v }
  | "allow-origin" =>
    some { o with origins := o.origins ++ (value.toList.splitOn ',').map String.ofList }
  | _ => none

/-! ## Arguments -/

/-- An option with a value of its own, as in `--port=1`. -/
def assignment? (argument : String) : Option (String × String) :=
  match argument.toList with
  | '-' :: '-' :: cs =>
    match cs.span (· != '=') with
    | (name, '=' :: value) => some (String.ofList name, String.ofList value)
    | _ => none
  | _ => none

/-- The name of an option whose value is the next argument. -/
def option? (argument : String) : Option String :=
  match argument.toList with
  | '-' :: '-' :: c :: cs => some (String.ofList (c :: cs))
  | _ => none

/-- Whether an argument is read as an option, so that it is no value. A single dash is a value. -/
def isOption (argument : String) : Bool :=
  match argument.toList with
  | '-' :: _ :: _ => true
  | _ => false

/-- A request that ends the reading. A cluster of letters is decided by its first. -/
def request? (argument : String) : Option Invocation :=
  match argument.toList with
  | ['-', '-', 'v', 'e', 'r', 's', 'i', 'o', 'n'] => some .version
  | ['-', '-', 'h', 'e', 'l', 'p'] => some .help
  | '-' :: 'V' :: _ => some .version
  | '-' :: 'h' :: _ => some .help
  | _ => none

/-- What follows the command to generate: nothing, or a request for help. -/
def afterGenerate (o : Options) : List String → Option Invocation
  | [] => some (.generate o)
  | ["--"] => some (.generate o)
  | argument :: _ => if request? argument = some .help then some .help else none

/-- Reads arguments onto options already read; none if they cannot be understood. -/
def read (o : Options) : List String → Option Invocation
  | [] => some (.serve o)
  | ["--"] => some (.serve o)
  | argument :: rest =>
    match request? argument with
    | some invocation => some invocation
    | none =>
      match assignment? argument with
      | some (name, value) => (set? o name value).bind fun o => read o rest
      | none =>
        match option? argument with
        | some name =>
          match rest with
          | value :: rest =>
            if isOption value then none else (set? o name value).bind fun o => read o rest
          | [] => none
        | none =>
          if argument = "generate" then afterGenerate o rest
          else if argument = "help" then some .help
          else none

/-- What a command line asks for, if it can be understood. -/
def parse? (arguments : List String) : Option Invocation := read {} arguments

/-- What is told about the version. -/
def versionText : String := "ida-mcp-bridge 0.1.0\n"

/-- What is told about the use of the program. -/
def helpText : String :=
  "MCP bridge to the IDA Pro plugin\n\nUsage: ida-mcp-bridge [OPTIONS] [COMMAND]\n"

end CommandLine
end PluginTools
