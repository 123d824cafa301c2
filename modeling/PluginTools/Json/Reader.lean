/-
Reading JSON. A text is read in two steps: its tokens make a tree, which says how lists and objects nest
and keeps members as they come, and a tree is a value if each of its leaves has one, if its members are
taken by name and if it is at most 127 levels deep.
-/
import PluginTools.Json.Token

namespace PluginTools.Json

/-- What a text holds, before its leaves are known to have values. -/
inductive Tree where
  | null
  | bool (value : Bool)
  | text (value : Option String)
  | number (value : Option Json)
  | list (items : List Tree)
  | object (members : List (Option String × Tree))
deriving Repr, Inhabited

namespace Tree

/-! ## From tokens -/

mutual

def read : Nat → List Token → Option (Tree × List Token)
  | 0, _ => none
  | fuel + 1, ts =>
    match ts with
    | .null :: ts => some (.null, ts)
    | .bool b :: ts => some (.bool b, ts)
    | .text s :: ts => some (.text s, ts)
    | .number n :: ts => some (.number n, ts)
    | .openList :: .closeList :: ts => some (.list [], ts)
    | .openList :: ts => (readItems fuel ts).map fun (vs, ts) => (.list vs, ts)
    | .openObject :: .closeObject :: ts => some (.object [], ts)
    | .openObject :: ts => (readMembers fuel ts).map fun (ms, ts) => (.object ms, ts)
    | _ => none

/-- One item or more, up to the end of the list. -/
def readItems : Nat → List Token → Option (List Tree × List Token)
  | 0, _ => none
  | fuel + 1, ts => do
    let (v, ts) ← read fuel ts
    match ts with
    | .closeList :: ts => some ([v], ts)
    | .comma :: ts =>
      let (vs, ts) ← readItems fuel ts
      some (v :: vs, ts)
    | _ => none

/-- One member or more, up to the end of the object. -/
def readMembers : Nat → List Token → Option (List (Option String × Tree) × List Token)
  | 0, _ => none
  | fuel + 1, ts =>
    match ts with
    | .text n :: .colon :: ts => do
      let (v, ts) ← read fuel ts
      match ts with
      | .closeObject :: ts => some ([(n, v)], ts)
      | .comma :: ts =>
        let (ms, ts) ← readMembers fuel ts
        some ((n, v) :: ms, ts)
      | _ => none
    | _ => none

end

/-- The tree of a whole text. -/
def ofSource? (cs : Token.Source) : Option Tree := do
  let ts ← Token.all? cs
  match read (2 * ts.length + 1) ts with
  | some (t, []) => some t
  | _ => none

/-! ## To values -/

mutual

/-- The value of a tree that is at most so many levels deep. -/
def value? : Nat → Tree → Option Json
  | _, .null => some .null
  | _, .bool b => some (.bool b)
  | _, .text s => s.map .text
  | _, .number n => n
  | 0, .list _ | 0, .object _ => none
  | depth + 1, .list vs => (values? depth vs).map .list
  | depth + 1, .object ms => (memberValues? depth ms).map .ofMembers

def values? : Nat → List Tree → Option (List Json)
  | _, [] => some []
  | depth, v :: vs => do
    let v ← value? depth v
    (v :: ·) <$> values? depth vs

def memberValues? : Nat → List (Option String × Tree) → Option (List (String × Json))
  | _, [] => some []
  | depth, (n, v) :: ms => do
    let n ← n
    let v ← value? depth v
    ((n, v) :: ·) <$> memberValues? depth ms

end

/-- How deep lists and objects may nest. -/
def maxDepth : Nat := 127

end Tree

/-- The value of a text, if it is one value and nothing else. -/
def read? (cs : List Char) : Option Json :=
  (Tree.ofSource? (cs.map some)).bind (Tree.value? Tree.maxDepth)

end PluginTools.Json
