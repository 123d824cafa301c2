/-
The grammar's rules tied together, and a whole source read by them. A source is rejected exactly when no
reading of it by the rules reaches its end.
-/
import PluginTools.Source.Statement

namespace PluginTools

namespace Rules

/-- The rules whose nested parts are read by the given ones. -/
def next (r : Thunk Rules) : Rules where
  expression p level cs := r.get.expressionRule p level cs
  primary p level cs := r.get.primaryRule p level cs
  chain p cs := r.get.chainRule p cs
  interpolation p cs := r.get.interpolationRule p cs
  type p cs := r.get.typeRule p cs
  assigned p cs := r.get.assignedRule p cs
  pattern p cs := r.get.patternRule p cs
  simplePattern p cs := r.get.simplePatternRule p cs
  suite column cs := r.get.suiteRule column cs

/-- The rules for parts that nest at most so deep. -/
def depth : Nat → Rules
  | 0 => none
  | n + 1 => next (Thunk.mk fun _ => depth n)

end Rules

namespace Source

/-- A depth that no source of a length exceeds: each character opens few levels of nesting. -/
def depthOf (cs : List Char) : Nat := 8 * cs.length + 32

/-- How many lines end in a text. -/
def lineEnds (cs : List Char) : Nat := cs.count '\n'

/-- A declaration that starts on a line. -/
def declarationOf (line : Nat) (piece : Piece) : Declaration :=
  match piece.item with
  | .ofFunction f => .ofFunction { f with line := line }
  | .ofClass c => .ofClass { c with line := line }
  | _ => .other

/-- The declarations from a place on a line to the end of the source. -/
def declarationsFrom (r : Rules) : Nat → Nat → List Char → Option (List Declaration)
  | 0, _, _ => none
  | fuel + 1, line, cs =>
    match Layout.read ⟨false, false, false, false, true, false⟩ 0 false cs with
    | ⟨joins, .token []⟩ => some (joins.map fun _ => .other)
    | ⟨joins, .token start⟩ => do
      let first := line + lineEnds (cs.take (cs.length - start.length))
      let (pieces, rest) ← r.statement 0 start
      let line := first + lineEnds (start.take (start.length - rest.length))
      let more ← declarationsFrom r fuel line rest
      some ((joins.map fun _ => .other) ++ pieces.map (declarationOf first) ++ more)
    | _ => none

/-- The top-level declarations of a source, in order; none if its text is malformed. -/
def parse? (cs : List Char) : Option (List Declaration) :=
  declarationsFrom (Rules.depth (depthOf cs)) (cs.length + 1) 1 cs

end Source
end PluginTools
