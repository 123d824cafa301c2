/-
The guard in front of the network service. A request that names an origin which is not allowed is
forbidden, whatever it asks for; of the others, those for the two served places pass and no other.
-/
import PluginTools.Text.Blank
import PluginTools.Wire.Uri

namespace PluginTools

namespace Origin

/-- The octets that a header value may hold. -/
def isLegal (b : UInt8) : Bool := (0x20 ≤ b && b != 0x7f) || b == 0x09

/-- The octets that can be read as text: visible ASCII, blanks and tabs. -/
def isVisible (b : UInt8) : Bool := (0x20 ≤ b && b < 0x7f) || b == 0x09

/-- The text of a header value, if all of it is visible. -/
def text? (octets : List UInt8) : Option (List Char) :=
  if octets.all isVisible then some (octets.map fun b => Char.ofNat b.toNat) else none

end Origin

/-- The origins from which requests are taken. -/
structure Guard where
  allowed : List (List Char)
deriving Repr, Inhabited

/-- What the guard does with a request. -/
inductive Verdict where
  | forbidden
  | notFound
  | pass
deriving DecidableEq, Repr, Inhabited

namespace Guard

/-- The origins of a list without the blanks around them; empty ones do not count. -/
def ofList (origins : List String) : Guard :=
  ⟨(origins.map fun s => Blank.trim s.toList).filter fun cs => !cs.isEmpty⟩

/-- The event stream of the service. -/
def streamPath : List Char := "/sse".toList

/-- Where clients send their messages. -/
def messagePath : List Char := "/messages/".toList

def serves (path : List Char) : Bool := path == streamPath || messagePath.isPrefixOf path

/-- Whether an origin is readable and not allowed; a request without one comes from nowhere foreign. -/
def rejects (g : Guard) (origin : Option (List UInt8)) : Bool :=
  match origin.bind Origin.text? with
  | some text => !g.allowed.contains text
  | none => false

def judge (g : Guard) (path : List Char) (origin : Option (List UInt8)) : Verdict :=
  if g.rejects origin then .forbidden
  else if serves path then .pass
  else .notFound

end Guard

namespace Verdict

/-- The status and body of a rejection. -/
def rejection? : Verdict → Option (Nat × String)
  | .forbidden => some (403, "Forbidden")
  | .notFound => some (404, "Not Found")
  | .pass => none

end Verdict
end PluginTools
