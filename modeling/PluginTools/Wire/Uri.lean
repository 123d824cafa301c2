/-
Request targets: a path with an optional query, an absolute URI, an authority alone or an asterisk.
Only the path is kept, without the query and the fragment; a target of any other form is refused.
-/
import PluginTools.Number.Reading

namespace PluginTools.Uri

/-! ## Characters -/

def isLetter (c : Char) : Bool := ('a' ≤ c && c ≤ 'z') || ('A' ≤ c && c ≤ 'Z')

def isAlphanumeric (c : Char) : Bool := isLetter c || Number.isDigit c

/-- The characters of a scheme. -/
def isSchemeCharacter (c : Char) : Bool := isAlphanumeric c || "+-.~".toList.contains c

/-- The characters of an authority, its delimiters and those that end it left aside. -/
def isAuthorityCharacter (c : Char) : Bool :=
  isAlphanumeric c || "!$&'()*+,-.;=_~".toList.contains c

/-- The characters that end an authority. -/
def endsAuthority (c : Char) : Bool := c == '/' || c == '?' || c == '#'

/-- The characters of a path. Some that ought to be written as percent escapes are let through. -/
def isPathCharacter (c : Char) : Bool :=
  let n := c.toNat
  n = 0x21 || n = 0x22 || (0x24 ≤ n && n ≤ 0x3b) || n = 0x3d || (0x40 ≤ n && n ≤ 0x5f) ||
    (0x61 ≤ n && n ≤ 0x7a) || (0x7b ≤ n && n ≤ 0x7e) || 0x7f ≤ n

/-- The characters of a query. -/
def isQueryCharacter (c : Char) : Bool :=
  let n := c.toNat
  n = 0x21 || (0x24 ≤ n && n ≤ 0x3b) || n = 0x3d || 0x3f ≤ n

/-! ## Path and query -/

/-- Whether a query is well-formed up to its fragment. -/
def isQuery (cs : List Char) : Bool := (cs.takeWhile (· != '#')).all isQueryCharacter

/-- The path at the start of a text that goes on with a query, a fragment or nothing. -/
def path? : List Char → Option (List Char)
  | [] => some []
  | '?' :: rest => if isQuery rest then some [] else none
  | '#' :: _ => some []
  | c :: rest => if isPathCharacter c then (path? rest).map (c :: ·) else none

/-! ## Authority -/

/-- What has been seen of an authority: colons since the last delimiter, brackets, a percent sign that
may still belong to user information, and whether the last character was an at sign. -/
structure Authority where
  colons : Nat := 0
  opened : Bool := false
  closed : Bool := false
  percent : Bool := false
  afterAt : Bool := false

namespace Authority

def maxColons : Nat := 8

/-- Takes one more character into account; none if it cannot stand there. -/
def add (a : Authority) (c : Char) : Option Authority :=
  let a := { a with afterAt := false }
  if c = ':' then (if maxColons ≤ a.colons then none else some { a with colons := a.colons + 1 })
  else if c = '[' then (if a.percent || a.opened then none else some { a with opened := true })
  else if c = ']' then
    (if !a.opened || a.closed then none
      else some { a with closed := true, colons := 0, percent := false })
  else if c = '@' then some { a with colons := 0, percent := false, afterAt := true }
  else if c = '%' then some { a with percent := true }
  else if isAuthorityCharacter c then some a
  else none

/-- Whether an authority may end here. -/
def isComplete (a : Authority) : Bool :=
  a.opened == a.closed && decide (a.colons ≤ 1) && !a.afterAt && !a.percent

end Authority

/-- Passes over an authority; gives whether it was empty and what follows. -/
def authority? : Authority → Bool → List Char → Option (Bool × List Char)
  | a, empty, [] => if a.isComplete then some (empty, []) else none
  | a, empty, c :: rest =>
    if endsAuthority c then (if a.isComplete then some (empty, c :: rest) else none)
    else match a.add c with
      | some a => authority? a false rest
      | none => none

/-! ## Whole targets -/

def maxScheme : Nat := 64

/-- What stands behind a scheme and its slashes; the inner option is empty if there is no scheme, the
outer one if the scheme is too long. -/
def afterScheme? (cs : List Char) : Option (Option (List Char)) :=
  let scheme := cs.takeWhile isSchemeCharacter
  match cs.drop scheme.length with
  | ':' :: '/' :: '/' :: rest =>
    if maxScheme < scheme.length then none else some (some rest)
  | _ => some none

/-- The greatest number of octets of a target. -/
def maxOctets : Nat := 65534

/-- The path of a target as a server sees it: at least a slash where there is a scheme, nothing for an
authority alone. -/
def target? (s : String) : Option (List Char) :=
  let cs := s.toList
  if maxOctets < s.utf8ByteSize then none
  else match cs with
    | [] => none
    | ['*'] => some ['*']
    | '/' :: _ => path? cs
    | [_] => do
      let (_, rest) ← authority? {} true cs
      if rest.isEmpty then some [] else none
    | _ =>
      match afterScheme? cs with
      | none => none
      | some none => do
        let (_, rest) ← authority? {} true cs
        if rest.isEmpty then some [] else none
      | some (some rest) => do
        let (empty, rest) ← authority? {} true rest
        if empty then none
        else (path? rest).map fun path => if path.isEmpty then ['/'] else path

end PluginTools.Uri
