/-
JSON values as they pass through: the members of an object stand in the order of their names and no
name occurs twice, a number is whole while it fits sixty-four bits and binary64 otherwise.
-/
import PluginTools.Number.Shortest

namespace PluginTools

inductive Json where
  | null
  | bool (value : Bool)
  | int (value : Int)
  | float (value : Double)
  | text (value : String)
  | list (items : List Json)
  | object (members : List (String × Json))
deriving Repr, Inhabited

/-- Whether one text stands before another: by the codes of their characters. -/
def precedes : List Char → List Char → Bool
  | _, [] => false
  | [], _ :: _ => true
  | a :: as, b :: bs => a.toNat < b.toNat || (a == b && precedes as bs)

namespace Members

/-- Puts a member in its place among ordered members; one of the same name is replaced. -/
def put (name : String) (value : α) : List (String × α) → List (String × α)
  | [] => [(name, value)]
  | (n, v) :: rest =>
    if name = n then (name, value) :: rest
    else if precedes name.toList n.toList then (name, value) :: (n, v) :: rest
    else (n, v) :: put name value rest

def get? (name : String) : List (String × α) → Option α
  | [] => none
  | (n, v) :: rest => if name = n then some v else get? name rest

/-- Members given in any order; of one name the last counts. -/
def ofList (members : List (String × α)) : List (String × α) :=
  members.foldl (fun ms m => put m.1 m.2 ms) []

end Members

namespace Json

/-- An object of the given members, of which the last of one name counts. -/
def ofMembers (members : List (String × Json)) : Json := .object (Members.ofList members)

/-- The member of that name, if the value is an object that has one. -/
def member? (name : String) : Json → Option Json
  | .object ms => Members.get? name ms
  | _ => none

def text? : Json → Option String
  | .text s => some s
  | _ => none

/-- The least whole number that is kept whole. -/
def minInt : Int := -Int.pow 2 63

/-- The greatest whole number that is kept whole. -/
def maxInt : Int := Int.pow 2 64 - 1

end Json
end PluginTools
