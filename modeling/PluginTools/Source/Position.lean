/-
Positions in a source: a line and a column, both counted from one, the column in octets.
-/

namespace PluginTools

structure Position where
  line : Nat
  column : Nat
deriving DecidableEq, Repr, Inhabited

namespace Position

def start : Position := ⟨1, 1⟩

/-- The position behind one more character. -/
def step (p : Position) (c : Char) : Position :=
  if c = '\n' then ⟨p.line + 1, 1⟩ else ⟨p.line, p.column + c.utf8Size⟩

/-- The position behind a text. -/
def behind (cs : List Char) : Position := cs.foldl step start

end Position
end PluginTools
