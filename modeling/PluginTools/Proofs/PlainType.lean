/-
Plain expressions as types. Where a type stands, a name with brackets behind it takes types between them,
and only members and bars may follow the brackets; a bar takes all that stands before it, and so does a
member behind the bar's right side. So the text of an expression may be another type there than in an
expression, or none at all. `asType` says which, and `keepsType` for which expressions it is the same.
-/
import PluginTools.Proofs.LegibleType

namespace PluginTools.Expr

mutual

/-- The type that the text of a plain expression is, if it is one. -/
def asType : Expr → Option Expr
  | .subscript (.name id) (.tuple (x :: xs)) =>
    x.asType.bind fun t => (asTypes xs).map fun ts => .subscript (.name id) (Rules.parametersOf (t :: ts))
  | .subscript (.name id) slice => slice.asType.map (.subscript (.name id))
  | .subscript value slice => if value.startsGeneric then Option.none else some (.subscript value slice)
  | .call function xs ks => if function.startsGeneric then Option.none else some (.call function xs ks)
  | .attribute value field =>
    if value.startsGeneric then value.asType.map (.attribute · field) else some (.attribute value field)
  | .binary left operator right =>
    if left.startsGeneric then left.asType.bind fun l => right.asType.map (graft l operator)
    else some (.binary left operator right)
  | e => some e

def asTypes : List Expr → Option (List Expr)
  | [] => some []
  | x :: xs => x.asType.bind fun t => (asTypes xs).map (t :: ·)

end

mutual

/-- Whether the text of a plain expression is the same as a type. -/
def keepsType : Expr → Bool
  | .subscript (.name _) (.tuple (x :: xs)) => x.keepsType && keepTypes xs
  | .subscript (.name _) slice => slice.keepsType
  | .subscript value _ => !value.startsGeneric
  | .call function _ _ => !function.startsGeneric
  | .attribute value _ => !value.startsGeneric || value.keepsType
  | .binary left _ right =>
    !left.startsGeneric || left.keepsType && right.keepsType && (!right.startsGeneric || !right.isAttribute)
  | _ => true

def keepTypes : List Expr → Bool
  | [] => true
  | x :: xs => x.keepsType && keepTypes xs

end

variable {e e' left right : Expr} {xs ts : List Expr}

/-! ## Types between brackets -/

theorem asTypes_eq_mapM : asTypes xs = xs.mapM asType := by
  induction xs with
  | nil => simp [asTypes]
  | cons x xs ih => cases hx : x.asType <;> cases hxs : xs.mapM asType <;> simp [asTypes, hx, hxs, ih]

theorem asTypes_self_iff : asTypes xs = some xs ↔ ∀ x ∈ xs, x.asType = some x := by
  rw [asTypes_eq_mapM, mapM_self_iff]

theorem keepTypes_iff : keepTypes xs ↔ ∀ x ∈ xs, x.keepsType := by
  induction xs with
  | nil => simp [keepTypes]
  | cons x xs ih => simp [keepTypes, ih]

theorem parametersOf_inj (hlength : xs.length = ts.length) (h : Rules.parametersOf xs = Rules.parametersOf ts) :
    xs = ts := by
  rcases xs with _ | ⟨x, _ | ⟨y, ys⟩⟩ <;> rcases ts with _ | ⟨t, _ | ⟨u, us⟩⟩ <;>
    simp_all [Rules.parametersOf]

/-! ## Equations -/

theorem asType_attribute (value : Expr) (field : String) : (Expr.attribute value field).asType =
    if value.startsGeneric then value.asType.map (.attribute · field) else some (.attribute value field) := rfl

theorem asType_call (function : Expr) (xs : List Expr) (ks : List (String × Expr)) : (Expr.call function xs ks).asType =
    if function.startsGeneric then Option.none else some (.call function xs ks) := rfl

theorem asType_binary (left right : Expr) (operator : String) : (Expr.binary left operator right).asType =
    if left.startsGeneric then left.asType.bind fun l => right.asType.map (graft l operator)
    else some (.binary left operator right) := rfl

theorem keepsType_attribute (value : Expr) (field : String) :
    (Expr.attribute value field).keepsType = (!value.startsGeneric || value.keepsType) := rfl

theorem keepsType_call (function : Expr) (xs : List Expr) (ks : List (String × Expr)) :
    (Expr.call function xs ks).keepsType = !function.startsGeneric := rfl

theorem keepsType_binary (left right : Expr) (operator : String) : (Expr.binary left operator right).keepsType =
    (!left.startsGeneric || left.keepsType && right.keepsType && (!right.startsGeneric || !right.isAttribute)) := rfl

theorem asType_subscript_name (id : String) (slice : Expr) : (Expr.subscript (.name id) slice).asType =
    (asTypes slice.indices).map fun ts => .subscript (.name id) (Rules.parametersOf ts) := by
  unfold indices
  split
  · next x xs =>
    rw [asType, asTypes]
    cases x.asType with
    | none => rfl
    | some t => cases asTypes xs <;> rfl
  · next h =>
    rw [asType]
    · cases hs : slice.asType <;> simp [asTypes, hs, Rules.parametersOf]
    · exact fun x xs he => h x xs he

theorem keepsType_subscript_name (id : String) (slice : Expr) :
    (Expr.subscript (.name id) slice).keepsType ↔ ∀ x ∈ slice.indices, x.keepsType := by
  unfold indices
  split
  · rw [keepsType]
    simp [keepTypes_iff]
  · next h =>
    rw [keepsType]
    · simp
    · exact fun x xs he => h x xs he

theorem asType_subscript (h : e.name? = Option.none) (slice : Expr) : (Expr.subscript e slice).asType =
    if e.startsGeneric then Option.none else some (.subscript e slice) := by
  cases e with
  | name => cases h
  | _ => rfl

theorem keepsType_subscript (h : e.name? = Option.none) (slice : Expr) :
    (Expr.subscript e slice).keepsType = !e.startsGeneric := by
  cases e with
  | name => cases h
  | _ => rfl

/-- Where no name with brackets starts the text, it is the expression as a type too. -/
theorem asType_of_not_startsGeneric (h : e.startsGeneric = false) : e.asType = some e ∧ e.keepsType := by
  cases e with
  | subscript value slice =>
    cases hname : value.name? with
    | some id =>
      obtain rfl := eq_name_of_name? hname
      cases h
    | none =>
      have hvalue : value.startsGeneric = false := by cases value <;> first | exact h | cases hname
      simp [asType_subscript hname, keepsType_subscript hname, hvalue]
  | name | literal | tuple | list | verbatim => exact ⟨rfl, rfl⟩
  | _ => simp_all [startsGeneric, asType_attribute, asType_call, asType_binary, keepsType_attribute, keepsType_call,
      keepsType_binary]

/-! ## Members behind brackets -/

theorem asType_members (h : e.startsGeneric) (fields : List String) :
    (members e fields).asType = e.asType.map (members · fields) := by
  induction fields using List.reverseRecOn with
  | nil => simp [members]
  | append_singleton fields field ih =>
    simp [members_concat, asType_attribute, h, ih, Function.comp_def]

theorem isTypeReserved_of_isIdentifier {id : String} (h : isIdentifier id) : Rules.isTypeReserved id.toList = false := by
  have hall : ∀ w ∈ ["not", "lambda", "None", "True", "False", "await", "print", "exec", "async", "match"],
      w ∈ reservedWords := by decide
  simp only [Rules.isTypeReserved, List.any_eq_false, beq_iff_eq]
  exact fun w hw => toList_ne_of_isIdentifier h (hall w hw)

/-- Every name of a plain expression starts a type if brackets stand behind it. -/
theorem Plain.startsType_eq (he : e.Plain) : e.startsType = e.startsGeneric := by
  induction he with
  | @subscript value slice hvalue _ _ _ ih =>
    cases hname : value.name? with
    | some id =>
      obtain rfl := eq_name_of_name? hname
      cases hvalue with
      | name hid => simp [startsType, startsGeneric, isTypeReserved_of_isIdentifier hid]
    | none =>
      have hgeneric : (Expr.subscript value slice).startsGeneric = value.startsGeneric := by
        cases value <;> first | rfl | cases hname
      rw [startsType_subscript hname, hgeneric, ih]
  | member _ _ _ ih | call _ _ _ _ _ ih | union _ _ _ _ ih => simpa only [startsType, startsGeneric] using ih
  | _ => rfl

/-- A plain expression that is overfull is no type. -/
theorem Plain.asType_of_isOverfull (he : e.Plain) (hbinary : e.isBinary = false) (hstart : e.startsGeneric)
    (hover : e.isOverfull) : e.asType = Option.none ∧ e.keepsType = false := by
  induction he with
  | @member value field _ hhead _ ih =>
    have hgeneric : value.startsGeneric := hstart
    obtain ⟨htype, hkeeps⟩ := ih (by cases value <;> first | rfl | cases hhead) hstart hover
    simp [asType_attribute, keepsType_attribute, hgeneric, htype, hkeeps]
  | @subscript value slice =>
    cases hname : value.name? with
    | some id =>
      obtain rfl := eq_name_of_name? hname
      cases hover
    | none =>
      have hgeneric : value.startsGeneric := by cases value <;> first | exact hstart | cases hname
      simp [asType_subscript hname, keepsType_subscript hname, hgeneric]
  | @call function =>
    have hgeneric : function.startsGeneric := hstart
    simp [asType_call, keepsType_call, hgeneric]
  | union => cases hbinary
  | _ => cases hstart

/-- A plain expression is the same type to `typeOf`, which asks of no expression to be plain. -/
theorem Plain.typeOf_eq (he : e.Plain) : e.typeOf = e.asType := by
  have hof : ∀ {e : Expr}, e.Plain → e.startsGeneric = false → e.typeOf = e.asType := fun he hgeneric => by
    rw [typeOf_of_not_startsType (he.startsType_eq.trans hgeneric), (asType_of_not_startsGeneric hgeneric).1]
  induction he with
  | @subscript value slice hvalue hhead hslice hpair _ ih =>
    have hplain : (Expr.subscript value slice).Plain := .subscript hvalue hhead hslice hpair
    cases hgeneric : (Expr.subscript value slice).startsGeneric with
    | false => exact hof hplain hgeneric
    | true =>
      rw [typeOf_of_startsType (hplain.startsType_eq.trans hgeneric)]
      cases hname : value.name? with
      | some id =>
        obtain rfl := eq_name_of_name? hname
        rw [openType_subscript_name, asType_subscript_name, asTypes_eq_mapM, mapM_congr ih, Option.map_map]
        rfl
      | none =>
        have hstart : value.startsGeneric := by cases value <;> first | exact hgeneric | cases hname
        rw [openType_subscript hname, asType_subscript hname, if_pos hstart]
        rfl
  | @call function xs ks hfunction hhead hxs hnames hks =>
    cases hgeneric : (Expr.call function xs ks).startsGeneric with
    | false => exact hof (.call hfunction hhead hxs hnames hks) hgeneric
    | true =>
      have hstart : function.startsGeneric := hgeneric
      have hcall : (Expr.call function xs ks).startsType := hfunction.startsType_eq.trans hgeneric
      rw [typeOf_of_startsType hcall, asType_call, if_pos hstart]
      rfl
  | @member value field hvalue hhead hfield ih =>
    cases hgeneric : value.startsGeneric with
    | false => exact hof (.member hvalue hhead hfield) hgeneric
    | true =>
      have hstart := hvalue.startsType_eq.trans hgeneric
      have hrest := openType_rest (e := value) (by cases value <;> first | rfl | cases hhead)
      rw [typeOf_of_startsType hstart] at ih
      have hmember : (Expr.attribute value field).startsType := hstart
      rw [typeOf_of_startsType hmember, asType_attribute, if_pos hgeneric, ← ih, openType, Option.map_map, Option.map_map]
      exact Option.map_congr fun t ht => by simp [OpenType.closed_of_rest (hrest t ht)]
  | @union left right hleft hright hl hr ihl ihr =>
    cases hgeneric : left.startsGeneric with
    | false => exact hof (.union hleft hright hl hr) hgeneric
    | true =>
      have hstart := hleft.startsType_eq.trans hgeneric
      have hunion : (Expr.binary left "|" right).startsType := hstart
      rw [typeOf_of_startsType hunion, asType_binary, if_pos hgeneric, ← ihl, ← ihr, typeOf_of_startsType hstart, openType,
        if_pos rfl]
      cases htype : left.openType with
      | none => rfl
      | some t =>
        have ht := openType_rest hl t htype
        rw [Option.bind_some, Option.map_some, Option.bind_some, OpenType.closed_of_rest ht, OpenType.bar, ht]
        cases hright_start : right.startsType with
        | false =>
          rw [typeOf_of_not_startsType hright_start, Option.map_some,
            graft_of_not_startsGeneric (hright.startsType_eq.symm.trans hright_start)]
          rfl
        | true =>
          rw [typeOf_of_startsType hright_start, if_pos rfl, Option.map_map, Option.map_map]
          exact Option.map_congr fun u hu => by simp [OpenType.closed_of_rest (openType_rest hr u hu)]
  | _ => rfl

/-! ## Types that stay as they are -/

/-- A union is the same as a type if its sides are and no member stands behind the brackets of the right one. -/
theorem union_asType_self_iff (hright : right.Plain) (hbinary : right.isBinary = false) (hstart : left.startsGeneric)
    (hl : left.asType = some left ↔ left.keepsType) (hr : right.asType = some right ↔ right.keepsType) :
    (Expr.binary left "|" right).asType = some (.binary left "|" right) ↔ (Expr.binary left "|" right).keepsType := by
  have hunion : (Expr.binary left "|" right).asType = left.asType.bind fun l => right.asType.map (graft l "|") := by
    rw [asType_binary, if_pos hstart]
  have hkeeps : (Expr.binary left "|" right).keepsType =
      (left.keepsType && right.keepsType && (!right.startsGeneric || !right.isAttribute)) := by
    simp [keepsType_binary, hstart]
  rw [hunion, hkeeps]
  cases hgeneric : right.startsGeneric with
  | false =>
    obtain ⟨htype, hkept⟩ := asType_of_not_startsGeneric hgeneric
    simp [htype, hkept, graft_of_not_startsGeneric hgeneric, ← hl, Option.bind_eq_some_iff]
  | true =>
    obtain ⟨id, slice, fields, post, hspined⟩ :=
      hright.legible.spine (by rw [hright.startsType_eq, hgeneric]) (bar_lt_tightness hbinary)
    cases hspined.spine with
    | stuck _ hover =>
      obtain ⟨htype, hkeeps⟩ := hright.asType_of_isOverfull hbinary hgeneric hover
      simp [htype, hkeeps]
    | members =>
      rcases List.eq_nil_or_concat' fields with rfl | ⟨fields, field, rfl⟩
      · simp only [members, List.foldl_nil, asType_subscript_name] at hr ⊢
        simp only [Option.map_map, Function.comp_def, graft]
        simp [← hl, ← hr, isAttribute, Option.bind_eq_some_iff]
      · have htypes := asType_members (e := .subscript (.name id) slice) rfl (fields ++ [field])
        have hattribute : (members (.subscript (.name id) slice) (fields ++ [field])).isAttribute := by
          rw [members_concat, isAttribute]
        have hgraft : ∀ l t, graft l "|" (members (.subscript (.name id) t) (fields ++ [field])) =
            members (.binary l "|" (.subscript (.name id) t)) (fields ++ [field]) := fun l t =>
          graft_members rfl rfl l "|" _
        rw [asType_subscript_name, Option.map_map] at htypes
        simp only [htypes, hattribute, Option.map_map, Function.comp_def, hgraft]
        simp [members_concat, Option.bind_eq_some_iff]

/-- **The text of a plain expression is the same as a type** exactly where `keepsType` says so. -/
theorem Plain.asType_self_iff (he : e.Plain) : e.asType = some e ↔ e.keepsType := by
  induction he with
  | @subscript value slice hvalue hv hslice hpair ih ihs =>
    cases hname : value.name? with
    | some id =>
      obtain rfl : value = .name id := by
        cases value <;> cases hname
        rfl
      rw [asType_subscript_name, keepsType_subscript_name, ← forall₂_congr ihs, ← asTypes_self_iff,
        Option.map_eq_some_iff]
      constructor
      · rintro ⟨ts, hts, he⟩
        have hparameters : Rules.parametersOf ts = Rules.parametersOf slice.indices := by
          rw [parametersOf_indices hpair]
          simpa using he
        rwa [parametersOf_inj (mapM_eq_some_iff.1 (asTypes_eq_mapM ▸ hts)).length_eq.symm hparameters] at hts
      · exact fun hts => ⟨_, hts, by rw [parametersOf_indices hpair]⟩
    | none => cases hs : value.startsGeneric <;> simp [asType_subscript hname, keepsType_subscript hname, hs]
  | @call function => cases hs : function.startsGeneric <;> simp [asType_call, keepsType_call, hs]
  | @member value _ _ _ _ ih => cases hs : value.startsGeneric <;> simp [asType_attribute, keepsType_attribute, hs, ih]
  | @union left right hleft hright hl hr ihl ihr =>
    cases hs : left.startsGeneric with
    | true => exact union_asType_self_iff hright hr hs ihl ihr
    | false => simp [asType_binary, keepsType_binary, hs]
  | _ => exact iff_of_true (asType_of_not_startsGeneric rfl).1 (asType_of_not_startsGeneric rfl).2

end PluginTools.Expr
