/-
The schema of a type from the schemas of the types in it. A type contains the options of a union or some of the
arguments of a generic type (`Expr.parts`), or it refers to a record, and then the record's fields are entered; so
the types to be looked at grow smaller, or there is less room for further records. `unfolding_induction` is the
induction over both.
-/
import Mathlib.Data.List.Basic
import PluginTools.Tool.Schema

namespace PluginTools

/-! ## Generic types -/

/-- What a generic type is by its name. -/
inductive Wrapper where
  | list
  | sequence
  | tuple
  | mapping
  | optional
  | union
  | literal
  | described
  | unknown

namespace Wrapper

def ofName : String → Wrapper
  | "list" | "List" => .list
  | "Sequence" | "set" | "Set" => .sequence
  | "tuple" | "Tuple" => .tuple
  | "dict" | "Dict" => .mapping
  | "Optional" => .optional
  | "Union" => .union
  | "Literal" => .literal
  | "Annotated" => .described
  | _ => .unknown

/-- The arguments that stand in the schema of a generic type. -/
def parts : Wrapper → List α → List α
  | .list, [item] | .sequence, [item] | .tuple, item :: _ | .mapping, [_, item] | .optional, [item]
  | .described, item :: _ => [item]
  | .union, options => options
  | _, _ => []

/-- The schema of a generic type from those of its arguments. -/
def schema (allowed : List Json) : Wrapper → List Schema → Schema
  | .list, [item] | .sequence, [item] | .tuple, item :: _ => .list item
  | .mapping, [_, value] => .mapping value
  | .optional, [inner] => .oneOf [inner, .null]
  | .union, options => .oneOf options
  | .literal, _ => .enumeration allowed
  | .described, inner :: _ => inner
  | .list, _ | .tuple, _ => .array
  | .mapping, _ => .object
  | _, _ => .any

theorem mem_of_mem_parts {w : Wrapper} {xs : List α} {x : α} (h : x ∈ w.parts xs) : x ∈ xs := by
  unfold parts at h
  split at h <;> simp_all

theorem parts_map (f : α → β) (w : Wrapper) (xs : List α) : w.parts (xs.map f) = (w.parts xs).map f := by
  cases w <;> rcases xs with _ | ⟨_, _ | ⟨_, _ | ⟨_, _⟩⟩⟩ <;> rfl

/-- Only the parts among the arguments matter. -/
theorem schema_congr {w : Wrapper} {allowed : List Json} {f g : α → Schema} {xs : List α}
    (h : ∀ x ∈ w.parts xs, f x = g x) : w.schema allowed (xs.map f) = w.schema allowed (xs.map g) := by
  cases w with
  | union => exact congrArg Schema.oneOf (List.map_congr_left h)
  | literal | unknown => rfl
  | list | sequence | optional =>
    match xs, h with
    | [], _ | _ :: _ :: _, _ => rfl
    | [x], h => simp only [List.map_cons, List.map_nil, h x (.head _)]
  | mapping =>
    match xs, h with
    | [], _ | [_], _ | _ :: _ :: _ :: _, _ => rfl
    | [_, x], h => simp only [List.map_cons, List.map_nil, schema, h x (.head _)]
  | tuple | described =>
    match xs, h with
    | [], _ => rfl
    | x :: _, h => simp only [List.map_cons, schema, h x (.head _)]

/-- The literals among the arguments matter only where a choice of literals is asked for. -/
theorem schema_of_ne_literal {w : Wrapper} (h : w ≠ .literal) (allowed allowed' : List Json) (ss : List Schema) :
    w.schema allowed ss = w.schema allowed' ss := by
  cases w with
  | literal => exact absurd rfl h
  | _ => rcases ss with _ | ⟨_, _ | ⟨_, _ | ⟨_, _⟩⟩⟩ <;> rfl

end Wrapper

namespace Schema

theorem optionList_eq_map (ss : List Schema) : optionList ss = ss.map toJson := by
  induction ss with
  | nil => rfl
  | cons s ss ih => rw [optionList, ih, List.map_cons, toJson]

theorem fieldMembers_eq_map (fields : List (String × Schema)) :
    fieldMembers fields = fields.map fun field => (field.1, field.2.toJson) := by
  induction fields with
  | nil => rfl
  | cons field fields ih =>
    obtain ⟨n, s⟩ := field
    rw [fieldMembers, ih, List.map_cons, toJson]

theorem generic_eq (name : String) (allowed : List Json) (ss : List Schema) :
    generic name allowed ss = (Wrapper.ofName name).schema allowed ss := by
  unfold Wrapper.ofName
  split
  -- Under a known name three arguments and more are all the same.
  all_goals try (unfold generic; rcases ss with _ | ⟨_, _ | ⟨_, _ | ⟨_, _⟩⟩⟩ <;> rfl)
  unfold generic
  dsimp only
  split <;> first | contradiction | rfl

end Schema

/-! ## Types in a type -/

namespace Expr

/-- The options of a union from left to right; a type that is no union is its own only option. -/
def options : Expr → List Expr
  | .binary left operator right =>
    if operator = "|" then left.options ++ right.options else [.binary left operator right]
  | type => [type]

/-- The arguments in the brackets of a generic type. -/
def arguments : Expr → List Expr
  | .tuple items => items
  | type => [type]

/-- The name that a type is, be it written as a string. -/
def reference? : Expr → Option String
  | .name id => some id
  | .literal (.text forward) => some forward
  | _ => none

/-- The types in a type that stand in its schema, from left to right. -/
def parts : Expr → List Expr
  | .subscript wrapper slice => (Wrapper.ofName (wrapper.name?.getD "")).parts slice.arguments
  | .binary left operator right => if operator = "|" then left.options ++ right.options else []
  | _ => []

theorem options_ne_nil (e : Expr) : e.options ≠ [] := by
  fun_induction options e with
  | case1 left right ihl _ => simp [ihl]
  | case2 | case3 => simp

theorem parts_of_reference {e : Expr} {name : String} (h : e.reference? = some name) : e.parts = [] := by
  unfold reference? at h
  split at h
  · rfl
  · rfl
  · cases h

theorem sizeOf_le_of_mem_options {e o : Expr} (h : o ∈ e.options) : sizeOf o ≤ sizeOf e := by
  fun_induction options e with
  | case1 left right ihl ihr =>
    rw [binary.sizeOf_spec]
    rcases List.mem_append.1 h with h | h
    · have := ihl h
      omega
    · have := ihr h
      omega
  | case2 left operator right _ => exact Nat.le_of_eq (congrArg sizeOf (List.mem_singleton.1 h))
  | case3 type _ => exact Nat.le_of_eq (congrArg sizeOf (List.mem_singleton.1 h))

theorem sizeOf_le_of_mem_arguments {e a : Expr} (h : a ∈ e.arguments) : sizeOf a ≤ sizeOf e := by
  unfold arguments at h
  split at h
  · next items =>
    have := List.sizeOf_lt_of_mem h
    rw [tuple.sizeOf_spec]
    omega
  · exact Nat.le_of_eq (congrArg sizeOf (List.mem_singleton.1 h))

theorem sizeOf_lt_of_mem_parts {e part : Expr} (h : part ∈ e.parts) : sizeOf part < sizeOf e := by
  unfold parts at h
  split at h
  · next wrapper slice =>
    have := sizeOf_le_of_mem_arguments (Wrapper.mem_of_mem_parts h)
    rw [subscript.sizeOf_spec]
    omega
  · next left operator right =>
    split at h
    · rw [binary.sizeOf_spec]
      rcases List.mem_append.1 h with h | h
      · have := sizeOf_le_of_mem_options h
        omega
      · have := sizeOf_le_of_mem_options h
        omega
    · simp at h
  · simp at h

end Expr

/-! ## Schemas inside records -/

/-- A name that is looked up inside the records entered so far, and entered in turn. -/
structure Enters (records : List Record) (entered : List String) (name : String) (r : Record) : Prop where
  named : Schema.builtin? name = none
  found : records.find? (·.name = name) = some r
  room : entered.length < Schema.maxDepth
  outside : name ∉ entered

namespace Schema

variable {records : List Record} {entered : List String} {name : String}

/-- The schema of a name inside the records entered so far. -/
def named (records : List Record) (entered : List String) (name : String) : Schema :=
  ofName records (maxDepth - entered.length) entered name

/-- The schema of a type inside the records entered so far. -/
def within (records : List Record) (entered : List String) (type : Expr) : Schema :=
  ofExpr (named records entered) type

theorem ofType_eq (records : List Record) (type : Expr) : ofType records type = within records [] type := rfl

theorem named_of_builtin {s : Schema} (h : builtin? name = some s) : named records entered name = s := by
  unfold named ofName
  rw [h]

theorem named_of_unknown (h : builtin? name = none) (hfound : records.find? (·.name = name) = none) :
    named records entered name = .any := by
  unfold named ofName
  rw [h, hfound]

/-- A record that is not entered is a bare object. -/
theorem named_of_not_enters {r : Record} (h : builtin? name = none) (hfound : records.find? (·.name = name) = some r)
    (hnot : ¬Enters records entered name r) : named records entered name = object := by
  unfold named
  cases hroom : maxDepth - entered.length with
  | zero => simp only [ofName, h, hfound]
  | succ room =>
    have hinside : name ∈ entered := by
      by_contra houtside
      exact hnot ⟨h, hfound, by omega, houtside⟩
    simp [ofName, h, hfound, hinside]

/-- A record that is entered is written out, with its fields inside it. -/
theorem named_of_enters {r : Record} (h : Enters records entered name r) : named records entered name =
    .record name (r.fields.map fun field => (field.1, within records (name :: entered) field.2)) := by
  have hlength : maxDepth - (name :: entered).length = maxDepth - entered.length - 1 := by
    rw [List.length_cons]
    omega
  unfold within named
  cases hroom : maxDepth - entered.length with
  | zero => exact absurd h.room (by omega)
  | succ room =>
    rw [hlength, hroom, ofName, h.named, h.found]
    exact if_neg (by simpa using h.outside)

/-! ## Schemas of types -/

theorem arguments_eq_map (named : String → Schema) (es : List Expr) :
    arguments named es = es.map (ofExpr named) := by
  induction es with
  | nil => rfl
  | cons e es ih => rw [arguments, ih, List.map_cons, ofExpr]

theorem alternatives_binary (named : String → Schema) (left right : Expr) (operator : String) :
    alternatives named (.binary left operator right) =
      if operator == "|" then alternatives named left ++ alternatives named right else [.any] := rfl

theorem alternatives_tuple (named : String → Schema) (wrapper : Expr) (items : List Expr) :
    alternatives named (.subscript wrapper (.tuple items)) =
      [generic (wrapper.name?.getD "") (literals items) (arguments named items)] := rfl

theorem alternatives_of_not_union (named : String → Schema) {e : Expr} (h : isUnion e = false) :
    alternatives named e = [ofExpr named e] := by
  rw [ofExpr, h]
  unfold alternatives
  split
  all_goals try rfl
  simp_all [isUnion, join]

theorem alternatives_eq_map (named : String → Schema) (e : Expr) :
    alternatives named e = e.options.map (ofExpr named) := by
  fun_induction Expr.options e with
  | case1 left right ihl ihr => rw [alternatives_binary, if_pos (by rfl), ihl, ihr, List.map_append]
  | case2 left operator right h => exact alternatives_of_not_union named (by simpa [isUnion] using h)
  | case3 type h =>
    refine alternatives_of_not_union named ?_
    cases type with
    | binary left operator right => exact absurd rfl (h left operator right)
    | _ => rfl

theorem within_of_reference {type : Expr} (h : type.reference? = some name) :
    within records entered type = named records entered name := by
  unfold Expr.reference? at h
  split at h
  · cases h
    rfl
  · cases h
    rfl
  · cases h

theorem within_subscript (wrapper slice : Expr) : within records entered (.subscript wrapper slice) =
    (Wrapper.ofName (wrapper.name?.getD "")).schema (literals slice.arguments)
      (slice.arguments.map (within records entered)) := by
  rw [← generic_eq, within]
  cases slice with
  | tuple items => rw [ofExpr, alternatives_tuple, arguments_eq_map]; rfl
  | _ => rfl

theorem within_union (left right : Expr) : within records entered (.binary left "|" right) =
    .oneOf ((left.options ++ right.options).map (within records entered)) := by
  have hoptions : (Expr.binary left "|" right).options = left.options ++ right.options := by
    rw [Expr.options, if_pos rfl]
  rw [← hoptions, within, ofExpr, alternatives_eq_map]
  rfl

/-- Only a union has the operator of a type. -/
theorem within_of_not_union {operator : String} (left right : Expr) (h : operator ≠ "|") :
    within records entered (.binary left operator right) = .any := by
  simp [within, ofExpr, alternatives_binary, isUnion, join, h]

/-- The schema of a type is made of those of the types in it and of the name that it may be. -/
theorem within_congr {records' : List Record} {entered' : List String} {type : Expr}
    (hparts : ∀ part ∈ type.parts, within records entered part = within records' entered' part)
    (hname : ∀ name, type.reference? = some name → named records entered name = named records' entered' name) :
    within records entered type = within records' entered' type := by
  cases type with
  | name id => exact hname id rfl
  | literal l =>
    cases l with
    | text forward => exact hname forward rfl
    | _ => rfl
  | subscript wrapper slice =>
    rw [within_subscript, within_subscript]
    exact Wrapper.schema_congr hparts
  | binary left operator right =>
    by_cases hunion : operator = "|"
    · subst hunion
      rw [within_union, within_union]
      exact congrArg oneOf (List.map_congr_left hparts)
    · rw [within_of_not_union left right hunion, within_of_not_union left right hunion]
  | _ => rfl

end Schema

/-- What holds of a type if it holds of the types in it and of the fields of the record that is entered for it, holds
of every type: a part is smaller, and behind a record there is room for one less. -/
theorem unfolding_induction {records : List Record} {P : List String → Expr → Prop}
    (step : ∀ entered type, (∀ part ∈ type.parts, P entered part) →
      (∀ name r, type.reference? = some name → Enters records entered name r →
        ∀ field ∈ r.fields, P (name :: entered) field.2) → P entered type)
    (entered : List String) (type : Expr) : P entered type :=
  step entered type (fun part _ => unfolding_induction step entered part)
    fun name _ _ _ field _ => unfolding_induction step (name :: entered) field.2
termination_by (Schema.maxDepth - entered.length, sizeOf type)
decreasing_by
  · next hpart => exact Prod.Lex.right _ (Expr.sizeOf_lt_of_mem_parts hpart)
  · next henters _ =>
    refine Prod.Lex.left _ _ ?_
    have := henters.room
    rw [List.length_cons]
    omega

end PluginTools
