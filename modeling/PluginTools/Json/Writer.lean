/-
JSON text in its two layouts: on one line without blanks, and with one item or member a line, two
blanks a level, where an empty list or object stays on its line.
-/
import PluginTools.Json.Value

namespace PluginTools.Json

/-- A character of a string: quotes, backslashes and control characters are escaped and nothing else is. -/
def escape (c : Char) : List Char :=
  if c = '\x22' then ['\\', '\x22']
  else if c = '\\' then ['\\', '\\']
  else if c = '\x08' then ['\\', 'b']
  else if c = '\x0c' then ['\\', 'f']
  else if c = '\n' then ['\\', 'n']
  else if c = '\r' then ['\\', 'r']
  else if c = '\t' then ['\\', 't']
  else if c.toNat < 0x20 then
    ['\\', 'u', '0', '0', Nat.digitChar (c.toNat / 16), Nat.digitChar (c.toNat % 16)]
  else [c]

def quote (s : String) : List Char := '\x22' :: (s.toList.flatMap escape ++ ['\x22'])

/-- The text of a value that holds no other. -/
def scalarChars : Json → List Char
  | .null => "null".toList
  | .bool true => "true".toList
  | .bool false => "false".toList
  | .int i => (toString i).toList
  | .float d => d.jsonText
  | .text s => quote s
  | .list _ | .object _ => []

mutual

/-- The text on one line. -/
def chars : Json → List Char
  | .list [] => ['[', ']']
  | .list (v :: vs) => '[' :: (v.chars ++ itemChars vs)
  | .object [] => ['\x7b', '\x7d']
  | .object ((n, v) :: ms) => '\x7b' :: (quote n ++ ':' :: (v.chars ++ memberChars ms))
  | v => v.scalarChars

/-- The items of a list after its first, and its end. -/
def itemChars : List Json → List Char
  | [] => [']']
  | v :: vs => ',' :: (v.chars ++ itemChars vs)

/-- The members of an object after its first, and its end. -/
def memberChars : List (String × Json) → List Char
  | [] => ['\x7d']
  | (n, v) :: ms => ',' :: (quote n ++ ':' :: (v.chars ++ memberChars ms))

end

/-- A new line at a level of nesting. -/
def newline (level : Nat) : List Char := '\n' :: List.replicate (2 * level) ' '

mutual

/-- The text with one item or member a line, at a level of nesting. -/
def prettyChars (level : Nat) : Json → List Char
  | .list [] => ['[', ']']
  | .list (v :: vs) =>
    '[' :: (newline (level + 1) ++ (v.prettyChars (level + 1) ++ prettyItems level vs))
  | .object [] => ['\x7b', '\x7d']
  | .object ((n, v) :: ms) =>
    '\x7b' :: (newline (level + 1) ++
      (quote n ++ ':' :: ' ' :: (v.prettyChars (level + 1) ++ prettyMembers level ms)))
  | v => v.scalarChars

def prettyItems (level : Nat) : List Json → List Char
  | [] => newline level ++ [']']
  | v :: vs => ',' :: (newline (level + 1) ++ (v.prettyChars (level + 1) ++ prettyItems level vs))

def prettyMembers (level : Nat) : List (String × Json) → List Char
  | [] => newline level ++ ['\x7d']
  | (n, v) :: ms =>
    ',' :: (newline (level + 1) ++
      (quote n ++ ':' :: ' ' :: (v.prettyChars (level + 1) ++ prettyMembers level ms)))

end

def compact (v : Json) : String := String.ofList v.chars

def pretty (v : Json) : String := String.ofList (v.prettyChars 0)

end PluginTools.Json
