/-
Legible expressions as types. Where a type stands, a name with brackets behind it takes types between them, and
only members and bars may follow the brackets. A member takes all that stands before it. So does a bar, and what
stands behind the bar is a type again: a name with its brackets, or else an expression with all of its operators.
So the text of an expression may be another type there than it is an expression, or none at all: `typeOf` says which.
-/
import Mathlib.Data.List.Forall2
import Mathlib.Data.List.Induction
import PluginTools.Proofs.LegibleExpr

namespace PluginTools

/-! ## Lists -/

section
variable {f k : α → Option β} {xs : List α} {ys : List β}

theorem mapM_eq_some_iff : xs.mapM f = some ys ↔ List.Forall₂ (fun x y => f x = some y) xs ys := by
  induction xs generalizing ys with
  | nil => simp [eq_comm]
  | cons x xs ih =>
    rw [List.mapM_cons, List.forall₂_cons_left_iff]
    simp only [← ih]
    cases f x <;> cases xs.mapM f <;> simp [eq_comm]

theorem mapM_congr (h : ∀ x ∈ xs, f x = k x) : xs.mapM f = xs.mapM k := by
  induction xs with
  | nil => rfl
  | cons x xs ih =>
    obtain ⟨hx, hxs⟩ := List.forall_mem_cons.1 h
    rw [List.mapM_cons, List.mapM_cons, hx, ih hxs]

theorem mapM_self_iff {f : α → Option α} {xs : List α} : xs.mapM f = some xs ↔ ∀ x ∈ xs, f x = some x := by
  rw [mapM_eq_some_iff, List.forall₂_same]

end

namespace Expr

/-! ## Members behind brackets -/

def isAttribute : Expr → Bool
  | .attribute .. => true
  | _ => false

/-- What a type becomes when a union is read at its start: the members behind its brackets are those of the
union. -/
def graft (left : Expr) (operator : String) : Expr → Expr
  | .attribute value field =>
    if value.startsGeneric then .attribute (graft left operator value) field
    else .binary left operator (.attribute value field)
  | right => .binary left operator right

/-- Members of an expression, one behind the other. -/
def members (e : Expr) (fields : List String) : Expr := fields.foldl .attribute e

def membersText (fields : List String) : List Char := fields.flatMap fun field => '.' :: field.toList

variable {e left right : Expr} {xs ts : List Expr}

theorem members_concat (e : Expr) (fields : List String) (field : String) :
    members e (fields ++ [field]) = .attribute (members e fields) field := by
  simp [members]

theorem membersText_concat (fields : List String) (field : String) :
    membersText (fields ++ [field]) = membersText fields ++ '.' :: field.toList := by
  simp [membersText]

@[simp] theorem startsGeneric_members (e : Expr) (fields : List String) :
    (members e fields).startsGeneric = e.startsGeneric := by
  induction fields using List.reverseRecOn with
  | nil => rfl
  | append_singleton fields field ih => rw [members_concat, startsGeneric, ih]

@[simp] theorem startsType_members (e : Expr) (fields : List String) : (members e fields).startsType = e.startsType := by
  induction fields using List.reverseRecOn with
  | nil => rfl
  | append_singleton fields field ih => rw [members_concat, startsType, ih]

theorem graft_of_not_startsGeneric (h : right.startsGeneric = false) (left : Expr) (operator : String) :
    graft left operator right = .binary left operator right := by
  cases right <;> simp_all [graft, startsGeneric]

/-- The members behind the brackets of a right side are those of the union. -/
theorem graft_members (h : e.startsGeneric) (hattribute : e.isAttribute = false) (left : Expr) (operator : String)
    (fields : List String) : graft left operator (members e fields) = members (.binary left operator e) fields := by
  induction fields using List.reverseRecOn with
  | nil => cases e <;> first | rfl | cases hattribute
  | append_singleton fields field ih => simp [members_concat, graft, h, ih]

/-! ## Types -/

/-- A type up to some place of its text: what the operators of types have made so far, and behind a bar the
expression that takes in all operators from there on. -/
structure OpenType where
  type : Expr
  rest : Option Expr

namespace OpenType

/-- The type that ends there. -/
def closed : OpenType → Expr
  | ⟨type, none⟩ => type
  | ⟨type, some e⟩ => .binary type "|" e

@[simp] theorem closed_none (type : Expr) : closed ⟨type, none⟩ = type := rfl

@[simp] theorem closed_some (type e : Expr) : closed ⟨type, some e⟩ = .binary type "|" e := rfl

theorem closed_of_rest {t : OpenType} (h : t.rest = none) : t.closed = t.type := by
  obtain ⟨type, rest⟩ := t
  obtain rfl : rest = none := h
  rfl

/-- The type behind one more bar and an operand, which may be a type itself. -/
def bar (t : OpenType) (operand : Expr) (operand? : Option OpenType) : Option OpenType :=
  match t.rest with
  | some e => some ⟨t.type, some (.binary e "|" operand)⟩
  | none =>
    if operand.startsType then operand?.map fun u => ⟨graft t.type "|" u.type, none⟩
    else some ⟨t.type, some operand⟩

end OpenType

/-- The type that the text of an expression is, given the one that it is if it starts as types do. -/
def typeOr (e : Expr) (type? : Option OpenType) : Option Expr :=
  if e.startsType then type?.map OpenType.closed else some e

mutual

/-- The type that the text of an expression is if it starts with a name and brackets. -/
def openType : Expr → Option OpenType
  | .subscript (.name id) (.tuple (x :: xs)) => (x.typeOr x.openType).bind fun t => (typesOf xs).map fun ts =>
    ⟨.subscript (.name id) (Rules.parametersOf (t :: ts)), none⟩
  | .subscript (.name id) slice => (slice.typeOr slice.openType).map fun t => ⟨.subscript (.name id) t, none⟩
  | .attribute value field => value.openType.map fun t => ⟨.attribute t.type field, none⟩
  | .binary left operator right =>
    if operator = "|" then left.openType.bind fun t => t.bar right right.openType else none
  | _ => none

def typesOf : List Expr → Option (List Expr)
  | [] => some []
  | x :: xs => (x.typeOr x.openType).bind fun t => (typesOf xs).map (t :: ·)

end

/-- The type that the text of a legible expression is, if it is one. -/
def typeOf (e : Expr) : Option Expr := e.typeOr e.openType

theorem typeOf_of_not_startsType (h : e.startsType = false) : e.typeOf = some e := by
  simp [typeOf, typeOr, h]

theorem typeOf_of_startsType (h : e.startsType) : e.typeOf = e.openType.map OpenType.closed := by
  simp [typeOf, typeOr, h]

theorem typesOf_eq_mapM (xs : List Expr) : typesOf xs = xs.mapM typeOf := by
  induction xs with
  | nil => simp [typesOf]
  | cons x xs ih =>
    rw [typesOf, List.mapM_cons, ih]
    cases hx : x.typeOf <;> cases hxs : xs.mapM typeOf <;> rw [typeOf] at hx <;> simp [hx]

/-- The parameters of a type are put together as the indices of a subscript are. -/
theorem parametersOf_eq_sliceOf (es : List Expr) : Rules.parametersOf es = Rules.sliceOf es := by
  rcases es with _ | ⟨x, _ | ⟨y, ys⟩⟩ <;> rfl

theorem parametersOf_indices (h : ∀ x, e ≠ .tuple [x]) : Rules.parametersOf e.indices = e := by
  rw [parametersOf_eq_sliceOf, sliceOf_indices h]

theorem openType_subscript_name (id : String) (slice : Expr) : (Expr.subscript (.name id) slice).openType =
    (slice.indices.mapM typeOf).map fun ts => ⟨.subscript (.name id) (Rules.parametersOf ts), none⟩ := by
  unfold indices
  split
  · next x xs =>
    rw [openType, typesOf_eq_mapM, List.mapM_cons, typeOf]
    cases x.typeOr x.openType <;> cases xs.mapM typeOf <;> rfl
  · next h =>
    rw [openType]
    · rw [List.mapM_cons, typeOf]
      cases slice.typeOr slice.openType <;> rfl
    · exact fun x xs he => h x xs he

theorem openType_subscript (h : e.name? = Option.none) (slice : Expr) : (Expr.subscript e slice).openType = Option.none := by
  cases e <;> first | rfl | cases h

/-- Only behind a bar an expression takes in what follows. -/
theorem openType_rest (hbinary : e.isBinary = false) : ∀ t ∈ e.openType, t.rest = Option.none := by
  intro t ht
  cases e with
  | subscript value slice =>
    cases hname : value.name? with
    | none => simp [openType_subscript hname] at ht
    | some id =>
      obtain rfl := eq_name_of_name? hname
      rw [openType_subscript_name] at ht
      obtain ⟨ts, -, rfl⟩ := Option.map_eq_some_iff.1 ht
      rfl
  | binary => cases hbinary
  | name | literal | tuple | list | call | verbatim => cases ht
  | _ =>
    obtain ⟨u, -, rfl⟩ := Option.map_eq_some_iff.1 ht
    rfl

theorem openType_members (e : Expr) (fields : List String) (hrest : ∀ t ∈ e.openType, t.rest = none) :
    (members e fields).openType = e.openType.map fun t => ⟨members t.type fields, none⟩ := by
  induction fields using List.reverseRecOn with
  | nil =>
    cases htype : e.openType with
    | none => simp [members, htype]
    | some t =>
      obtain ⟨type, rest⟩ := t
      obtain rfl : rest = none := hrest _ htype
      simp [members, htype]
  | append_singleton fields field ih =>
    rw [members_concat, openType, ih, Option.map_map]
    simp [Function.comp_def, members_concat]

/-! ## The start of a type -/

/-- What no type has behind it: brackets and operators other than a bar. -/
def foreignMarks : List Char := ['[', '(', '*', '/', '%', '@', '+', '-', '<', '>', '^', '&']

theorem foreign_cons {operator : String} (hop : isOperator operator) (hbar : operator ≠ "|") :
    ∃ c cs, operator.toList = c :: cs ∧ c ∈ foreignMarks := by
  have hall : ∀ o ∈ operators, o.1 ≠ "|" → ∃ c cs, o.1.toList = c :: cs ∧ c ∈ foreignMarks := by
    simp only [operators, List.forall_mem_cons, List.not_mem_nil, false_implies, implies_true, and_true]
    refine ⟨?_, ?_, ?_, ?_, ?_, ?_, ?_, ?_, ?_, ?_, ?_, ?_, ?_⟩ <;> intro _ <;>
      first | exact ⟨_, _, rfl, by decide⟩ | contradiction
  exact forall_operator (P := fun o _ => o ≠ "|" → ∃ c cs, o.toList = c :: cs ∧ c ∈ foreignMarks) hall hop hbar

/-- Whether something stands behind the brackets and the members that no type has there. -/
def isOverfull : Expr → Bool
  | .subscript (.name _) _ => false
  | .attribute value _ => value.isOverfull
  | _ => true

theorem isOverfull_subscript (h : e.name? = Option.none) (slice : Expr) : (Expr.subscript e slice).isOverfull := by
  cases e <;> first | rfl | cases h

/-- What stands behind the brackets of a name and the members there: nothing, or what no type has there. -/
inductive Spine (id : String) (slice : Expr) (fields : List String) : Expr → List Char → Prop
  | members : Spine id slice fields (members (.subscript (.name id) slice) fields) []
  | stuck {e : Expr} {post : List Char} (hpost : Reading.IsBefore foreignMarks post) (hover : e.isOverfull) :
    Spine id slice fields e post

/-- What no type has stops the type, whatever stands before it. -/
theorem Spine.append {id : String} {slice value : Expr} {fields : List String} {post cs : List Char}
    (h : Spine id slice fields value post) (hcs : Reading.IsBefore foreignMarks cs) (hover : e.isOverfull) :
    Spine id slice fields e (post ++ cs) := by
  cases h with
  | members => exact .stuck hcs hover
  | stuck hpost => exact .stuck (hpost.append cs) hover

/-- An expression that starts as types do, up to the first that no type has there. -/
structure Spined (e : Expr) (id : String) (slice : Expr) (fields : List String) (post : List Char) : Prop where
  base : Legible (.subscript (.name id) slice)
  reserved : Rules.isTypeReserved id.toList = false
  words : ∀ field ∈ fields, Word.isWord field.toList
  text : e.chars = (Expr.subscript (.name id) slice).chars ++ (membersText fields ++ post)
  spine : Spine id slice fields e post

theorem bar_lt_tightness (hbinary : e.isBinary = false) : levelOf "|" < e.tightness :=
  Int.lt_of_lt_of_le (by decide) (power_le_tightness hbinary)

/-- A bar is the loosest of all operators. -/
theorem bar_lt_levelOf {operator : String} (hop : isOperator operator) (hbar : operator ≠ "|") :
    levelOf "|" < levelOf operator := by
  have hall : ∀ o ∈ operators, o.1 ≠ "|" → levelOf "|" < o.2 := by decide
  exact forall_operator (P := fun o level => o ≠ "|" → levelOf "|" < level) hall hop hbar

theorem Legible.bar_le_tightness (he : e.Legible) : Level.left (levelOf "|") ≤ e.tightness := by
  cases he with
  | binary _ _ hop => exact Int.le_trans (by decide) (levelOf_bounds hop).1
  | _ => exact Int.le_trans (by decide) (power_le_tightness rfl)

theorem Legible.spine (he : e.Legible) (hstart : e.startsType) (htight : levelOf "|" < e.tightness) :
    ∃ id slice fields post, Spined e id slice fields post := by
  have hover : ∀ {base : Expr}, base.isBase → levelOf "|" < base.tightness := fun hbase =>
    bar_lt_tightness (not_isSigned_of_isBase hbase).1
  induction he with
  | @member value field _ hbase hfield ih =>
    obtain ⟨id, slice, fields, post, hspine⟩ := ih hstart (hover hbase)
    obtain ⟨hlegible, hreserved, hwords, htext, hspine⟩ := hspine
    cases hspine with
    | members =>
      refine ⟨id, slice, fields ++ [field], [], hlegible, hreserved, ?_, ?_, ?_⟩
      · simpa [or_imp, forall_and] using ⟨hwords, hfield⟩
      · simp [chars, htext, membersText_concat]
      · exact members_concat _ fields field ▸ .members
    | stuck hpost hover =>
      exact ⟨id, slice, fields, post ++ '.' :: field.toList, hlegible, hreserved, hwords, by simp [chars, htext],
        .stuck (hpost.append _) hover⟩
  | @subscript value slice hvalue hbase hslice hpair ih =>
    cases hname : value.name? with
    | some id =>
      obtain rfl := eq_name_of_name? hname
      exact ⟨id, slice, [], [], .subscript hvalue hbase hslice hpair, by simpa [startsType] using hstart, by simp,
        by simp [membersText], .members⟩
    | none =>
      rw [startsType_subscript hname] at hstart
      obtain ⟨id, base, fields, post, hspine⟩ := ih hstart (hover hbase)
      refine ⟨id, base, fields, post ++ '[' :: (commaSeparated (slice.indices.map chars) ++ [']']), hspine.base,
        hspine.reserved, hspine.words, by simp [chars_subscript value, hspine.text], hspine.spine.append ?_ ?_⟩
      · exact ⟨'[', by simp [foreignMarks], _, .inl rfl⟩
      · exact isOverfull_subscript hname slice
  | @call function xs ks _ hbase _ _ _ ih =>
    obtain ⟨id, base, fields, post, hspine⟩ := ih hstart (hover hbase)
    refine ⟨id, base, fields, post ++ '(' :: (commaSeparated (xs.map chars ++ ks.map keywordText) ++ [')']), hspine.base,
      hspine.reserved, hspine.words, by simp [chars_call function, hspine.text], hspine.spine.append ?_ rfl⟩
    exact ⟨'(', by simp [foreignMarks], _, .inl rfl⟩
  | @binary left right operator _ _ hop hl _ ih =>
    obtain ⟨id, base, fields, post, hspine⟩ := ih hstart
      (Int.lt_of_lt_of_le htight (Int.le_trans (Level.le_left (levelOf operator)) hl))
    obtain ⟨c, cs, hmark, hc⟩ := foreign_cons hop fun h => Int.lt_irrefl _ (h ▸ htight)
    refine ⟨id, base, fields, post ++ ' ' :: c :: (cs ++ ' ' :: right.chars), hspine.base, hspine.reserved, hspine.words,
      by simp [chars_binary, hspine.text, hmark], hspine.spine.append ?_ rfl⟩
    exact ⟨c, hc, _, .inr rfl⟩
  | _ => cases hstart

/-- An expression that is overfull is no type. -/
theorem openType_of_isOverfull (he : e.Legible) (hstart : e.startsType) (htight : levelOf "|" < e.tightness)
    (hover : e.isOverfull) : e.openType = Option.none := by
  induction he with
  | @member value field _ hbase _ ih =>
    rw [openType, ih hstart (bar_lt_tightness (not_isSigned_of_isBase hbase).1) hover]
    rfl
  | @subscript value slice =>
    cases hname : value.name? with
    | some id =>
      obtain rfl := eq_name_of_name? hname
      cases hover
    | none => exact openType_subscript hname slice
  | @binary left right operator =>
    have hbar : operator ≠ "|" := fun h => Int.lt_irrefl _ (h ▸ htight)
    rw [openType, if_neg hbar]
  | call => rfl
  | _ => cases hstart

/-- The type of an expression by its spine. -/
theorem Spined.openType_eq {id : String} {slice : Expr} {fields : List String} {post : List Char}
    (hs : Spined e id slice fields post) (he : e.Legible) (hstart : e.startsType) (htight : levelOf "|" < e.tightness) :
    e.openType = if post = [] then
      (Expr.subscript (.name id) slice).openType.map fun u => ⟨u.type.members fields, .none⟩ else .none := by
  cases hs.spine with
  | members => exact openType_members _ fields (openType_rest rfl)
  | stuck hpost hover =>
    have hne : post ≠ [] := by
      rintro rfl
      obtain ⟨c, -, ds, h | h⟩ := hpost <;> cases h
    rw [if_neg hne, openType_of_isOverfull he hstart htight hover]

/-- A type that is no union is a name with brackets, and members behind them. -/
theorem Legible.openType_eq_members (he : e.Legible) (hstart : e.startsType) (htight : levelOf "|" < e.tightness)
    {t : OpenType} (ht : e.openType = some t) :
    ∃ id slice fields, t = ⟨members (.subscript (.name id) slice) fields, Option.none⟩ := by
  obtain ⟨id, slice, fields, post, hs⟩ := he.spine hstart htight
  rw [hs.openType_eq he hstart htight] at ht
  split at ht
  · obtain ⟨u, hu, rfl⟩ := Option.map_eq_some_iff.1 ht
    rw [openType_subscript_name] at hu
    obtain ⟨ts, -, rfl⟩ := Option.map_eq_some_iff.1 hu
    exact ⟨id, _, fields, rfl⟩
  · cases ht

end Expr
end PluginTools
