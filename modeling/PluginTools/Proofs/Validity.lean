/-
Which published schemas are valid. In every schema and everything inside it a list of required names names properties
that stand beside it. That no name is required twice, and that there is something to choose from, does not always
hold: names are listed as often as they are declared, and a union may have no options. `tool_schema_valid_iff` says
that a tool's schema is valid exactly if none of this happens in the types that are looked at for it.
-/
import Mathlib.Logic.Relation
import PluginTools.Proofs.Arrivals
import PluginTools.Proofs.InputSchema
import PluginTools.Proofs.TypeSchemas
import PluginTools.Tool.Catalog

namespace PluginTools

/-- What holds of everything that is reached in any number of steps. -/
def Throughout (step : α → α → Prop) (P : α → Prop) (a : α) : Prop := ∀ b, Relation.ReflTransGen step a b → P b

theorem throughout_iff {step : α → α → Prop} {P : α → Prop} {a : α} :
    Throughout step P a ↔ P a ∧ ∀ b, step a b → Throughout step P b := by
  constructor
  · exact fun h => ⟨h a .refl, fun b hb c hc => h c (.head hb hc)⟩
  · rintro ⟨ha, hnext⟩ b hb
    rcases Relation.ReflTransGen.cases_head hb with rfl | ⟨c, hc, hcb⟩
    · exact ha
    · exact hnext c hc b hcb

/-! ## Schemas inside schemas -/

namespace Json

/-- A schema that stands directly in a schema. -/
inductive Inside (j : Json) : Json → Prop
  | items {k : Json} : j.member? "items" = some k → Inside j k
  | values {k : Json} : j.member? "additionalProperties" = some k → Inside j k
  | option {ks : List Json} {k : Json} : j.member? "anyOf" = some (.list ks) → k ∈ ks → Inside j k
  | property {ps k : Json} {name : String} : j.member? "properties" = some ps → ps.member? name = some k → Inside j k

/-- What a schema requires is a list of names of properties, and what it lets choose from is a list. -/
structure Listed (j : Json) : Prop where
  required : ∀ r, j.member? "required" = some r → ∃ names : List String, r = .list (names.map .text) ∧
    ∃ ps, j.member? "properties" = some ps ∧ ∀ n ∈ names, ∃ k, ps.member? n = some k
  anyOf : ∀ a, j.member? "anyOf" = some a → ∃ ks, a = .list ks

/-- Besides, it requires no name twice and lets choose from something. -/
structure Valid (j : Json) : Prop extends Listed j where
  distinct : ∀ names : List String, j.member? "required" = some (.list (names.map .text)) → names.Nodup
  nonempty : j.member? "anyOf" ≠ some (.list [])

/-- The members of a schema that matter here. -/
def keywords : List String := ["items", "additionalProperties", "anyOf", "properties", "required"]

section

variable {j j' : Json} (same : ∀ key ∈ keywords, j.member? key = j'.member? key)

include same

theorem Inside.of_same {k : Json} (h : Inside j k) : Inside j' k := by
  cases h with
  | items h => exact .items (same "items" (by decide) ▸ h)
  | values h => exact .values (same "additionalProperties" (by decide) ▸ h)
  | option hks h => exact .option (same "anyOf" (by decide) ▸ hks) h
  | property hps h => exact .property (same "properties" (by decide) ▸ hps) h

theorem Listed.of_same (h : Listed j) : Listed j' where
  required := by
    rw [← same "required" (by decide), ← same "properties" (by decide)]
    exact h.required
  anyOf := by
    rw [← same "anyOf" (by decide)]
    exact h.anyOf

theorem Valid.of_same (h : Valid j) : Valid j' where
  toListed := h.toListed.of_same same
  distinct := by
    rw [← same "required" (by decide)]
    exact h.distinct
  nonempty := by
    rw [← same "anyOf" (by decide)]
    exact h.nonempty

end

/-- Other members of a schema do not matter. -/
theorem throughout_congr {P : Json → Prop}
    (hP : ∀ {j j' : Json}, (∀ key ∈ keywords, j.member? key = j'.member? key) → P j → P j') {j j' : Json}
    (same : ∀ key ∈ keywords, j.member? key = j'.member? key) : Throughout Inside P j ↔ Throughout Inside P j' := by
  have same' : ∀ key ∈ keywords, j'.member? key = j.member? key := fun key hkey => (same key hkey).symm
  rw [throughout_iff, throughout_iff (a := j')]
  exact and_congr ⟨hP same, hP same'⟩ (forall_congr' fun k => imp_congr ⟨.of_same same, .of_same same'⟩ .rfl)

end Json

/-! ## Schemas of types -/

namespace Schema

/-- The schemas directly in a schema. -/
def inner : Schema → List Schema
  | .list items => [items]
  | .mapping value => [value]
  | .oneOf options => options
  | .record _ fields => fields.map (·.2)
  | _ => []

/-- Whether nothing is amiss with a schema itself: there is something to choose from, and no field comes twice. -/
def Fits : Schema → Prop
  | .oneOf options => options ≠ []
  | .record _ fields => (fields.map (·.1)).Nodup
  | _ => True

theorem sizeOf_lt_of_mem_inner {s t : Schema} (h : t ∈ s.inner) : sizeOf t < sizeOf s := by
  unfold inner at h
  split at h
  · obtain rfl := List.mem_singleton.1 h
    simp
  · obtain rfl := List.mem_singleton.1 h
    simp
  · have := List.sizeOf_lt_of_mem h
    simp only [oneOf.sizeOf_spec]
    omega
  · obtain ⟨field, hfield, rfl⟩ := List.mem_map.1 h
    have hlt := List.sizeOf_lt_of_mem hfield
    obtain ⟨n, t⟩ := field
    simp only [Prod.mk.sizeOf_spec] at hlt
    simp only [record.sizeOf_spec]
    omega
  · simp at h

theorem member?_toJson (key : String) (s : Schema) : s.toJson.member? key = Members.get? key s.members.reverse :=
  Json.member?_ofMembers key s.members

/-- The properties of a record are its fields; of one name the last counts. -/
theorem member?_properties (name : String) (fields : List (String × Schema)) :
    (Json.ofMembers (fieldMembers fields)).member? name = (fields.findRev? (·.1 = name)).map (·.2.toJson) := by
  rw [fieldMembers_eq_map]
  exact Json.member?_ofMembers_map (·.1) (·.2.toJson) name fields

/-- What stands in a schema of a type is one of its inner schemas. -/
theorem exists_inner_of_inside {s : Schema} {k : Json} (h : Json.Inside s.toJson k) : ∃ t ∈ s.inner, t.toJson = k := by
  cases h with
  | items h =>
    rw [member?_toJson] at h
    cases s <;> simp_all [members, Members.get?_cons, inner, toJson]
  | values h =>
    rw [member?_toJson] at h
    cases s <;> simp_all [members, Members.get?_cons, inner, toJson]
  | option h hk =>
    rw [member?_toJson] at h
    cases s with
    | oneOf options =>
      obtain rfl : options.map toJson = _ := by simpa [members, Members.get?_cons, optionList_eq_map] using h
      exact List.mem_map.1 hk
    | _ => simp [members, Members.get?_cons] at h
  | @property ps k name h hk =>
    rw [member?_toJson] at h
    cases s with
    | record title fields =>
      obtain rfl : Json.ofMembers (fieldMembers fields) = ps := by simpa [members, Members.get?_cons] using h
      rw [member?_properties] at hk
      obtain ⟨field, hfield, rfl⟩ := Option.map_eq_some_iff.1 hk
      exact ⟨field.2, List.mem_map_of_mem (mem_of_findRev? hfield).1, rfl⟩
    | _ => simp [members, Members.get?_cons] at h

/-- If no field comes twice, every inner schema stands in a schema. Otherwise a later field hides those before it. -/
theorem inside_of_mem_inner {s t : Schema} (hfits : s.Fits) (ht : t ∈ s.inner) : Json.Inside s.toJson t.toJson := by
  cases s with
  | list items =>
    obtain rfl := List.mem_singleton.1 ht
    refine .items ?_
    rw [member?_toJson]
    simp [members, Members.get?_cons, toJson]
  | mapping value =>
    obtain rfl := List.mem_singleton.1 ht
    refine .values ?_
    rw [member?_toJson]
    simp [members, Members.get?_cons, toJson]
  | oneOf options =>
    have hoptions : (oneOf options).toJson.member? "anyOf" = some (.list (options.map toJson)) := by
      rw [member?_toJson]
      simp [members, Members.get?_cons, optionList_eq_map]
    exact .option hoptions (List.mem_map_of_mem ht)
  | record title fields =>
    obtain ⟨field, hfield, rfl⟩ := List.mem_map.1 ht
    have hfields : (record title fields).toJson.member? "properties" = some (.ofMembers (fieldMembers fields)) := by
      rw [member?_toJson]
      simp [members, Members.get?_cons]
    have hfield : (Json.ofMembers (fieldMembers fields)).member? field.1 = some field.2.toJson := by
      rw [fieldMembers_eq_map]
      refine Members.get?_ofList_of_mem ?_ (List.mem_map_of_mem (f := fun field => (field.1, field.2.toJson)) hfield)
      rw [List.map_map]
      exact hfits
    exact .property hfields hfield
  | _ => simp [inner] at ht

theorem listed_toJson (s : Schema) : Json.Listed s.toJson where
  required r h := by
    rw [member?_toJson] at h
    cases s with
    | record title fields =>
      refine ⟨fields.map (·.1), by simpa [members, Members.get?_cons, nameList] using h.symm,
        .ofMembers (fieldMembers fields), ?_, ?_⟩
      · rw [member?_toJson]
        simp [members, Members.get?_cons]
      · intro n hn
        refine (Members.get?_ofList_isSome_iff n _).2 ?_
        rwa [fieldMembers_eq_map, List.map_map]
    | _ => simp [members, Members.get?_cons] at h
  anyOf a h := by
    rw [member?_toJson] at h
    cases s with
    | oneOf options => exact ⟨_, by simpa [members, Members.get?_cons] using h.symm⟩
    | _ => simp [members, Members.get?_cons] at h

/-- Whatever the type, the required names of its schema and of all inside it are properties. -/
theorem throughout_listed (s : Schema) : Throughout Json.Inside Json.Listed s.toJson := by
  refine throughout_iff.2 ⟨s.listed_toJson, fun k hk => ?_⟩
  obtain ⟨t, ht, rfl⟩ := exists_inner_of_inside hk
  exact throughout_listed t
termination_by sizeOf s
decreasing_by exact sizeOf_lt_of_mem_inner ht

theorem valid_toJson_iff (s : Schema) : Json.Valid s.toJson ↔ s.Fits := by
  constructor
  · intro h
    cases s with
    | oneOf options =>
      intro hempty
      refine h.nonempty ?_
      rw [member?_toJson, hempty]
      rfl
    | record title fields =>
      refine h.distinct (fields.map (·.1)) ?_
      rw [member?_toJson]
      simp [members, Members.get?_cons, nameList]
    | _ => trivial
  · intro h
    refine ⟨s.listed_toJson, fun names hnames => ?_, fun hempty => ?_⟩
    · rw [member?_toJson] at hnames
      cases s with
      | record title fields =>
        have hsame : (fields.map (·.1)).map Json.text = names.map Json.text := by
          simpa [members, Members.get?_cons, nameList, -List.map_map] using hnames
        exact (List.map_inj_right fun _ _ => Json.text.inj).1 hsame ▸ h
      | _ => simp [members, Members.get?_cons] at hnames
    · rw [member?_toJson] at hempty
      cases s with
      | oneOf options => exact h (by simpa [members, Members.get?_cons, optionList_eq_map] using hempty)
      | _ => simp [members, Members.get?_cons] at hempty

/-- Whether a schema is valid, and all inside it. -/
def Valid (s : Schema) : Prop := Throughout Json.Inside Json.Valid s.toJson

theorem valid_iff (s : Schema) : s.Valid ↔ s.Fits ∧ ∀ t ∈ s.inner, t.Valid := by
  unfold Valid
  rw [throughout_iff, valid_toJson_iff]
  refine and_congr_right fun hfits => ⟨fun h t ht => h _ (inside_of_mem_inner hfits ht), fun h k hk => ?_⟩
  obtain ⟨t, ht, rfl⟩ := exists_inner_of_inside hk
  exact h t ht

@[simp] theorem valid_any : any.Valid := (valid_iff _).2 ⟨trivial, by simp [inner]⟩

@[simp] theorem valid_kind (name : String) : (kind name).Valid := (valid_iff _).2 ⟨trivial, by simp [inner]⟩

@[simp] theorem valid_enumeration (allowed : List Json) : (enumeration allowed).Valid :=
  (valid_iff _).2 ⟨trivial, by simp [inner]⟩

@[simp] theorem valid_list_iff (items : Schema) : (list items).Valid ↔ items.Valid := by
  rw [valid_iff]
  simp [Fits, inner]

@[simp] theorem valid_mapping_iff (value : Schema) : (mapping value).Valid ↔ value.Valid := by
  rw [valid_iff]
  simp [Fits, inner]

@[simp] theorem valid_oneOf_iff (options : List Schema) :
    (oneOf options).Valid ↔ options ≠ [] ∧ ∀ s ∈ options, s.Valid := valid_iff _

theorem valid_record_iff (title : String) (fields : List (String × Schema)) :
    (record title fields).Valid ↔ (fields.map (·.1)).Nodup ∧ ∀ field ∈ fields, field.2.Valid := by
  rw [valid_iff, Fits, inner, List.forall_mem_map]

/-- The schema of a generic type is valid if those in it are, unless it is a union of nothing. -/
theorem valid_wrapper_iff (w : Wrapper) (allowed : List Json) (ss : List Schema) :
    (w.schema allowed ss).Valid ↔ (w = .union → ss ≠ []) ∧ ∀ s ∈ w.parts ss, s.Valid := by
  cases w <;> rcases ss with _ | ⟨_, _ | ⟨_, _ | ⟨_, _⟩⟩⟩ <;>
    simp [Wrapper.schema, Wrapper.parts, array, object, null]

theorem valid_of_builtin {name : String} {s : Schema} (h : builtin? name = some s) : s.Valid := by
  unfold builtin? at h
  split at h <;> cases h
  all_goals exact valid_kind _

end Schema

/-! ## Types that are looked at -/

/-- What a type leads to: the types in it, or the fields of the record that is entered for it. -/
inductive Opens (records : List Record) : List String × Expr → List String × Expr → Prop
  | part {entered : List String} {type part : Expr} : part ∈ type.parts → Opens records (entered, type) (entered, part)
  | field {entered : List String} {type : Expr} {name : String} {r : Record} {field : String × Expr} :
    type.reference? = some name → Enters records entered name r → field ∈ r.fields →
      Opens records (entered, type) (name :: entered, field.2)

/-- What holds of all that a type leads to. -/
theorem Opens.forall_iff {records : List Record} {entered : List String} {type : Expr}
    {P : List String × Expr → Prop} : (∀ c, Opens records (entered, type) c → P c) ↔
      (∀ part ∈ type.parts, P (entered, part)) ∧ ∀ name r, type.reference? = some name → Enters records entered name r →
        ∀ field ∈ r.fields, P (name :: entered, field.2) := by
  constructor
  · intro h
    exact ⟨fun part hpart => h _ (.part hpart), fun name r hname hr field hfield => h _ (.field hname hr hfield)⟩
  · rintro ⟨hparts, hfields⟩ c hc
    cases hc with
    | part hpart => exact hparts _ hpart
    | field hname hr hfield => exact hfields _ _ hname hr _ hfield

/-- A type that is no union of nothing, and no record with a field twice unless it is not entered. -/
structure Expr.Regular (records : List Record) (entered : List String) (type : Expr) : Prop where
  options : type ≠ .subscript (.name "Union") (.tuple [])
  fields : ∀ name r, type.reference? = some name → Enters records entered name r → (r.fields.map (·.1)).Nodup

namespace Schema

variable {records : List Record} {entered : List String}

theorem valid_named_iff (name : String) : (named records entered name).Valid ↔
    ∀ r, Enters records entered name r →
      (r.fields.map (·.1)).Nodup ∧ ∀ field ∈ r.fields, (within records (name :: entered) field.2).Valid := by
  by_cases h : ∃ r, Enters records entered name r
  · obtain ⟨r, hr⟩ := h
    have hone : ∀ r', Enters records entered name r' → r' = r :=
      fun r' hr' => Option.some.inj (hr'.found.symm.trans hr.found)
    rw [named_of_enters hr, valid_record_iff, List.map_map, List.forall_mem_map]
    exact ⟨fun h r' hr' => hone r' hr' ▸ h, fun h => h r hr⟩
  · -- What is not entered has no schemas inside, so nothing is asked of it.
    refine iff_of_true ?_ fun r hr => absurd ⟨r, hr⟩ h
    cases hbuiltin : builtin? name with
    | some s =>
      rw [named_of_builtin hbuiltin]
      exact valid_of_builtin hbuiltin
    | none =>
      cases hfound : records.find? (·.name = name) with
      | none =>
        rw [named_of_unknown hbuiltin hfound]
        exact valid_any
      | some r =>
        rw [named_of_not_enters hbuiltin hfound fun hr => h ⟨r, hr⟩]
        exact valid_kind _

theorem union_of_nothing_iff (wrapper slice : Expr) :
    Expr.subscript wrapper slice = .subscript (.name "Union") (.tuple []) ↔
      Wrapper.ofName (wrapper.name?.getD "") = .union ∧ slice.arguments = [] := by
  rw [Expr.subscript.injEq]
  refine and_congr ⟨fun h => ?_, fun h => ?_⟩ ⟨fun h => ?_, fun h => ?_⟩
  · rw [h]
    rfl
  · cases wrapper with
    | name id =>
      unfold Wrapper.ofName at h
      split at h <;> simp_all [Expr.name?]
    | _ => cases h
  · rw [h]
    rfl
  · unfold Expr.arguments at h
    split at h <;> simp_all

/-- The schema of a type that is no reference is valid if those of the types in it are, unless it is a union of
nothing. -/
theorem valid_within_of_no_reference {type : Expr} (h : type.reference? = none) : (within records entered type).Valid ↔
    type ≠ .subscript (.name "Union") (.tuple []) ∧ ∀ part ∈ type.parts, (within records entered part).Valid := by
  cases type with
  | name id => cases h
  | subscript wrapper slice =>
    rw [within_subscript, valid_wrapper_iff, Wrapper.parts_map, List.forall_mem_map]
    simp only [ne_eq, List.map_eq_nil_iff, union_of_nothing_iff, not_and]
    rfl
  | binary left operator right =>
    by_cases hunion : operator = "|"
    · subst hunion
      rw [within_union, valid_oneOf_iff, List.forall_mem_map]
      simp [Expr.parts, Expr.options_ne_nil]
    · rw [within_of_not_union left right hunion]
      exact iff_of_true valid_any ⟨by simp, by simp [Expr.parts, hunion]⟩
  | literal l =>
    cases l with
    | text forward => cases h
    | none => exact iff_of_true (valid_kind _) ⟨by simp, by simp [Expr.parts]⟩
    | _ => exact iff_of_true valid_any ⟨by simp, by simp [Expr.parts]⟩
  | _ => exact iff_of_true valid_any ⟨by simp, by simp [Expr.parts]⟩

/-- The schema of a type is valid if the type is regular and those of the types it leads to are valid. -/
theorem valid_within_step (type : Expr) : (within records entered type).Valid ↔
    type.Regular records entered ∧ ∀ c, Opens records (entered, type) c → (within records c.1 c.2).Valid := by
  rw [Opens.forall_iff]
  cases hname : type.reference? with
  | none =>
    rw [valid_within_of_no_reference hname]
    constructor
    · rintro ⟨hplain, hparts⟩
      exact ⟨⟨hplain, by simp [hname]⟩, hparts, by simp⟩
    · rintro ⟨⟨hplain, -⟩, hparts, -⟩
      exact ⟨hplain, hparts⟩
  | some name =>
    rw [within_of_reference hname, valid_named_iff]
    constructor
    · intro h
      refine ⟨⟨?_, ?_⟩, ?_, ?_⟩
      · rintro rfl
        cases hname
      · rintro name' r hname' hr
        obtain rfl := Option.some.inj (hname.symm.trans hname')
        exact (h r hr).1
      · intro part hpart
        rw [Expr.parts_of_reference hname] at hpart
        cases hpart
      · rintro name' r hname' hr
        obtain rfl := Option.some.inj hname'
        exact (h r hr).2
    · rintro ⟨⟨-, hfields⟩, -, h⟩ r hr
      exact ⟨hfields name r hname hr, h name r rfl hr⟩

/-- The schema of a type is valid exactly if all types that are looked at for it are regular. -/
theorem valid_within_iff (entered : List String) (type : Expr) : (within records entered type).Valid ↔
    Throughout (Opens records) (fun c => c.2.Regular records c.1) (entered, type) := by
  induction entered, type using @unfolding_induction records with
  | step entered type hparts hfields =>
    rw [valid_within_step, throughout_iff, Opens.forall_iff, Opens.forall_iff]
    exact and_congr_right fun _ => and_congr (forall₂_congr hparts)
      (forall₄_congr fun name r hname hr => forall₂_congr (hfields name r hname hr))

end Schema

/-! ## Schemas of tools -/

namespace StubParameter

/-- Description and default put nothing into a schema that can be amiss. -/
theorem member?_schema_of_keyword (records : List Record) (p : StubParameter) {key : String} (h : key ∈ Json.keywords) :
    (p.schema records).member? key = (Schema.ofType records p.type).toJson.member? key := by
  rw [schema, Schema.toJson, Json.member?_ofMembers, Json.member?_ofMembers]
  have hne : key ≠ "default" ∧ key ≠ "description" := by
    revert key
    decide
  simp only [List.reverse_append, Members.get?_append]
  cases p.defaultJson? <;> cases p.description <;> simp [Members.get?_cons, hne]

theorem throughout_listed_schema (records : List Record) (p : StubParameter) :
    Throughout Json.Inside Json.Listed (p.schema records) :=
  (Json.throughout_congr Json.Listed.of_same fun _ => p.member?_schema_of_keyword records).2
    (Schema.throughout_listed _)

theorem throughout_valid_schema_iff (records : List Record) (p : StubParameter) :
    Throughout Json.Inside Json.Valid (p.schema records) ↔
      Throughout (Opens records) (fun c => c.2.Regular records c.1) ([], p.type) :=
  (Json.throughout_congr Json.Valid.of_same fun _ => p.member?_schema_of_keyword records).trans
    (Schema.valid_within_iff [] p.type)

end StubParameter

/-- A stub that requires no parameter twice and whose parameters, of one name the last, have only regular types to be
looked at. -/
structure Stub.Regular (records : List Record) (s : Stub) : Prop where
  required : s.requiredNames.Nodup
  types : ∀ p ∈ s.parameters, s.parameters.findRev? (·.name = p.name) = some p →
    Throughout (Opens records) (fun c => c.2.Regular records c.1) ([], p.type)

namespace Stub

variable {records : List Record} {s : Stub}

/-- The schema of a call is that of an object and of nothing else. -/
theorem member?_inputSchema_eq_none {key : String} (h : key ∈ ["items", "additionalProperties", "anyOf"]) :
    (s.inputSchema records).member? key = none := by
  have hne : key ≠ "type" ∧ key ≠ "properties" ∧ key ≠ "required" := by
    revert key
    decide
  rw [inputSchema, Json.member?_ofMembers]
  split <;> simp [Members.get?_cons, hne]

/-- What stands in the schema of a call is the schema of a parameter, of one name that of the last. -/
theorem inside_inputSchema_iff {k : Json} : Json.Inside (s.inputSchema records) k ↔
    ∃ p ∈ s.parameters, s.parameters.findRev? (·.name = p.name) = some p ∧ p.schema records = k := by
  have hproperty : ∀ name, (Json.object (s.properties records)).member? name =
      (s.parameters.findRev? (·.name = name)).map (·.schema records) :=
    fun name => Json.member?_ofMembers_map StubParameter.name (StubParameter.schema records) name s.parameters
  constructor
  · intro h
    cases h with
    | items h =>
      rw [member?_inputSchema_eq_none (by decide)] at h
      cases h
    | values h =>
      rw [member?_inputSchema_eq_none (by decide)] at h
      cases h
    | option h _ =>
      rw [member?_inputSchema_eq_none (by decide)] at h
      cases h
    | @property ps k name h hk =>
      rw [member?_inputSchema_properties] at h
      obtain rfl := Option.some.inj h
      rw [hproperty] at hk
      obtain ⟨p, hp, rfl⟩ := Option.map_eq_some_iff.1 hk
      obtain ⟨hmem, hname⟩ := mem_of_findRev? hp
      obtain rfl := of_decide_eq_true hname
      exact ⟨p, hmem, hp, rfl⟩
  · rintro ⟨p, -, hp, rfl⟩
    refine .property (s.member?_inputSchema_properties records) (?_ : Json.member? p.name _ = _)
    rw [hproperty, hp]
    rfl

theorem listed_inputSchema : Json.Listed (s.inputSchema records) where
  required r h := by
    rw [member?_inputSchema_required] at h
    split at h
    · cases h
    · obtain rfl := Option.some.inj h
      refine ⟨s.requiredNames, rfl, _, s.member?_inputSchema_properties records, fun n hn => ?_⟩
      obtain ⟨p, hp, rfl⟩ := List.mem_map.1 hn
      exact get?_properties_isSome_iff.2 (List.mem_map_of_mem (List.mem_of_mem_filter hp))
  anyOf a h := by
    rw [member?_inputSchema_eq_none (by decide)] at h
    cases h

theorem valid_inputSchema_iff : Json.Valid (s.inputSchema records) ↔ s.requiredNames.Nodup := by
  constructor
  · intro h
    by_cases hnone : s.requiredNames = []
    · rw [hnone]
      exact .nil
    · exact h.distinct _ (by rw [member?_inputSchema_required, if_neg hnone])
  · intro h
    refine ⟨listed_inputSchema, fun names hnames => ?_, ?_⟩
    · rw [member?_inputSchema_required] at hnames
      split at hnames
      · cases hnames
      · have hsame : s.requiredNames.map Json.text = names.map Json.text := by simpa using hnames
        exact (List.map_inj_right fun _ _ => Json.text.inj).1 hsame ▸ h
    · rw [member?_inputSchema_eq_none (by decide)]
      exact (Option.some_ne_none _).symm

theorem throughout_listed_inputSchema : Throughout Json.Inside Json.Listed (s.inputSchema records) := by
  refine throughout_iff.2 ⟨listed_inputSchema, fun k hk => ?_⟩
  obtain ⟨p, -, -, rfl⟩ := inside_inputSchema_iff.1 hk
  exact p.throughout_listed_schema records

theorem throughout_valid_inputSchema_iff :
    Throughout Json.Inside Json.Valid (s.inputSchema records) ↔ s.Regular records := by
  rw [throughout_iff, valid_inputSchema_iff]
  constructor
  · rintro ⟨hrequired, hparameters⟩
    refine ⟨hrequired, fun p hp hlast => ?_⟩
    exact (p.throughout_valid_schema_iff records).1 (hparameters _ (inside_inputSchema_iff.2 ⟨p, hp, hlast, rfl⟩))
  · rintro ⟨hrequired, htypes⟩
    refine ⟨hrequired, fun k hk => ?_⟩
    obtain ⟨p, hp, hlast, rfl⟩ := inside_inputSchema_iff.1 hk
    exact (p.throughout_valid_schema_iff records).2 (htypes p hp hlast)

end Stub

/-- **The schemas of tools**, whatever the stubs and records. Everywhere in them what is required are names of
properties and what may be chosen from is a list. They are valid throughout exactly if the stub forwarded to is
regular. -/
theorem tool_schema_valid_iff (set : StubSet) {t : Tool} (ht : t ∈ (Catalog.ofStubs set).tools) :
    Throughout Json.Inside Json.Listed t.inputSchema ∧
      (Throughout Json.Inside Json.Valid t.inputSchema ↔ ∀ s, t.action = .forward s → s.Regular set.records) := by
  rcases List.mem_cons.1 ht with rfl | hstub
  · -- The check of the connection takes arguments like a stub without parameters.
    have hschema : Tool.checkConnection.inputSchema = Stub.inputSchema set.records ⟨"", none, [], none⟩ := rfl
    rw [hschema]
    refine ⟨Stub.throughout_listed_inputSchema, iff_of_true ?_ fun s hs => by cases hs⟩
    exact Stub.throughout_valid_inputSchema_iff.2 ⟨.nil, by simp⟩
  · obtain ⟨s, -, rfl⟩ := List.mem_map.1 hstub
    refine ⟨Stub.throughout_listed_inputSchema, ?_⟩
    rw [show (Tool.ofStub set.records s).inputSchema = s.inputSchema set.records from rfl,
      Stub.throughout_valid_inputSchema_iff]
    exact ⟨fun h s' hs' => by cases hs'; exact h, fun h => h s rfl⟩

/-- A module with a record that declares a field twice, and a tool that takes such a record. -/
def repeatedFieldModule : List Declaration := [
  .ofClass {
    name := "D"
    bases := [.name "TypedDict"]
    fields := [("x", .name "int"), ("x", .name "str")]
    source := "class D(TypedDict):\n    x: int\n    x: str"
    line := 1 },
  .ofFunction {
    name := "f"
    decorators := [Vocabulary.toolMark]
    parameters := [⟨"a", .positional, some (.name "D"), none⟩]
    returns := none
    body := [.result (some (forwardCall "f" ["a"]))]
    line := 4 }]

def repeatedFieldSet : StubSet where
  records := [⟨"D", [("x", .name "int"), ("x", .name "str")]⟩]
  stubs := [⟨"f", none, [⟨"a", .name "D", none, none⟩], none⟩]

theorem tool_schema_valid_iff_repeatedField : StubSet.load repeatedFieldModule = .ok repeatedFieldSet ∧
    ∃ t ∈ (Catalog.ofStubs repeatedFieldSet).tools, ¬Throughout Json.Inside Json.Valid t.inputSchema := by
  have ht : Tool.ofStub repeatedFieldSet.records ⟨"f", none, [⟨"a", .name "D", none, none⟩], none⟩ ∈
      (Catalog.ofStubs repeatedFieldSet).tools := .tail _ (.head _)
  refine ⟨rfl, _, ht, fun h => ?_⟩
  have hregular := (tool_schema_valid_iff repeatedFieldSet ht).2.1 h _ rfl
  have htype := hregular.types _ (.head _) rfl _ .refl
  have hfields := htype.fields "D" _ rfl ⟨rfl, rfl, by decide, by decide⟩
  exact absurd hfields (by decide)

end PluginTools
