/-
What a tool says about its arguments and what it does with them. `inputSchema` is all a caller sees and
`bind` is what a call meets; they are computed apart. `bind_iff_inputSchema` says that the one tells the
caller exactly when the other succeeds, and with which values.

The link is the literal default of a parameter, `defaultJson?`: the schema shows it under "default"
whatever the type is, since no type has a constraint of that name, and the binder falls back on it.
-/
import PluginTools.Proofs.Members
import PluginTools.Tool.Schema

namespace PluginTools

/-! ## Binding -/

namespace Binding

theorem stranger?_eq_none_iff {ps : List StubParameter} {as : Arguments} :
    stranger? ps as = none ↔ ∀ a ∈ as, a.1 ∈ ps.map (·.name) := by
  simp [stranger?, List.find?_eq_none]

/-- A parameter's value is the argument given for it, or else its literal default. -/
theorem value_eq_ok_iff {as : Arguments} {p : StubParameter} {v : Json} :
    value as p = .ok v ↔ (Members.get? p.name as).or p.defaultJson? = some v := by
  simp only [value, StubParameter.defaultJson?]
  cases Members.get? p.name as with
  | some w => simp
  | none =>
    cases p.default with
    | none => simp
    | some e => cases e <;> simp

theorem values_eq_ok_iff {as : Arguments} {ps : List StubParameter} {vs : List Json} :
    values as ps = .ok vs ↔
      vs.map some = ps.map fun p => (Members.get? p.name as).or p.defaultJson? := by
  induction ps generalizing vs with
  | nil => cases vs <;> simp [values]
  | cons p ps ih =>
    simp only [values, bind, Except.bind]
    cases hv : value as p with
    | error e =>
      have hnone : ∀ v, (Members.get? p.name as).or p.defaultJson? ≠ some v := fun v h => by
        rw [value_eq_ok_iff.2 h] at hv
        cases hv
      cases vs with
      | nil => simp
      | cons w ws => simp [Ne.symm (hnone w)]
    | ok v =>
      have hv := value_eq_ok_iff.1 hv
      cases hvs : values as ps with
      | error e =>
        have hrest : ∀ ws : List Json,
            ws.map some ≠ ps.map fun p => (Members.get? p.name as).or p.defaultJson? := fun ws h => by
          rw [ih.2 h] at hvs
          cases hvs
        cases vs with
        | nil => simp
        | cons w ws => simp [hrest ws]
      | ok ws =>
        have hws := ih.1 hvs
        cases vs with
        | nil => simp
        | cons w us =>
          simp only [Except.ok.injEq, List.cons.injEq, List.map_cons, hv, Option.some.injEq, ← hws,
            List.map_inj_right (fun _ _ => Option.some.inj)]
          exact ⟨fun h => ⟨h.1.symm, h.2.symm⟩, fun h => ⟨h.1.symm, h.2.symm⟩⟩

/-- The parameters all have values exactly when each that is not given has a literal default. -/
theorem exists_values_iff {as : Arguments} {ps : List StubParameter} :
    (∃ vs, values as ps = .ok vs) ↔
      ∀ p ∈ ps, Members.get? p.name as = none → ∃ d, p.defaultJson? = some d := by
  simp only [values_eq_ok_iff]
  induction ps with
  | nil => simp
  | cons p ps ih =>
    simp only [List.map_cons, List.forall_mem_cons, ← ih]
    constructor
    · rintro ⟨vs, h⟩
      cases vs with
      | nil => simp at h
      | cons v vs =>
        simp only [List.map_cons, List.cons.injEq] at h
        refine ⟨fun hn => ⟨v, ?_⟩, vs, h.2⟩
        rw [h.1, hn, Option.none_or]
    · rintro ⟨hp, vs, hvs⟩
      cases hg : Members.get? p.name as with
      | some v => exact ⟨v :: vs, by simp [hvs]⟩
      | none =>
        obtain ⟨d, hd⟩ := hp hg
        exact ⟨d :: vs, by simp [hd, hvs]⟩

end Binding

theorem Stub.bind_eq_ok_iff {s : Stub} {as : Arguments} {vs : List Json} :
    s.bind as = .ok vs ↔ (∀ a ∈ as, a.1 ∈ s.parameters.map (·.name)) ∧ Binding.values as s.parameters = .ok vs := by
  rw [← Binding.stranger?_eq_none_iff]
  simp only [Stub.bind]
  cases Binding.stranger? s.parameters as <;> simp

/-! ## Schemas -/

namespace Schema

/-- No type has a constraint called "default", nor one called "description". -/
theorem get?_members_of_reserved (s : Schema) {k : String} (h : k = "default" ∨ k = "description") :
    Members.get? k s.members.reverse = none := by
  rcases h with rfl | rfl <;> cases s <;> simp [members, Members.get?_cons]

end Schema

namespace StubParameter

/-- The schema of a parameter shows its literal default, and no other. -/
theorem member?_schema_default (records : List Record) (p : StubParameter) :
    (p.schema records).member? "default" = p.defaultJson? := by
  rw [schema, Json.member?_ofMembers]
  simp only [List.reverse_append, Members.get?_append, Schema.get?_members_of_reserved _ (.inl rfl)]
  cases p.defaultJson? <;> cases p.description <;> simp [Members.get?_cons]

end StubParameter

namespace Stub

/-- The properties of a call's arguments, as the schema lists them. -/
def properties (records : List Record) (s : Stub) : List (String × Json) :=
  Members.ofList (s.parameters.map fun p => (p.name, p.schema records))

theorem member?_inputSchema_properties (records : List Record) (s : Stub) :
    (s.inputSchema records).member? "properties" = some (.object (s.properties records)) := by
  rw [inputSchema, Json.member?_ofMembers]
  split <;> simp [Members.get?_cons, properties, Json.ofMembers]

theorem member?_inputSchema_required (records : List Record) (s : Stub) :
    (s.inputSchema records).member? "required" =
      if s.requiredNames = [] then none else some (.list (s.requiredNames.map .text)) := by
  rw [inputSchema, Json.member?_ofMembers]
  by_cases h : s.requiredNames = [] <;> simp [h, Members.get?_cons, Schema.nameList]

theorem get?_properties_isSome_iff {records : List Record} {s : Stub} {k : String} :
    (∃ schema, Members.get? k (s.properties records) = some schema) ↔ k ∈ s.parameters.map (·.name) := by
  rw [properties, Members.get?_ofList_isSome_iff, List.map_map]
  rfl

theorem get?_properties_of_mem {records : List Record} {s : Stub} {p : StubParameter}
    (distinct : (s.parameters.map (·.name)).Nodup) (h : p ∈ s.parameters) :
    Members.get? p.name (s.properties records) = some (p.schema records) := by
  refine Members.get?_ofList_of_mem ?_ (List.mem_map.2 ⟨p, h, rfl⟩)
  rw [List.map_map]
  exact distinct

end Stub

/-! ## Agreement -/

/-- What the schema of a stub, with these properties, tells about calls of the stub. -/
structure Advertises (s : Stub) (records : List Record) (properties : List (String × Json)) : Prop where
  /-- The properties are those of the schema. -/
  listed : (s.inputSchema records).member? "properties" = some (.object properties)
  /-- A call is bound exactly when the schema lists every argument and shows a default for every parameter
  that is left out. -/
  bound_iff : ∀ arguments : Option Arguments,
    (∃ values, s.bind (arguments.getD []) = .ok values) ↔
      (∀ a ∈ arguments.getD [], ∃ schema, Members.get? a.1 properties = some schema) ∧
      ∀ p ∈ s.parameters, Members.get? p.name (arguments.getD []) = none →
        ∃ schema value, Members.get? p.name properties = some schema ∧ schema.member? "default" = some value
  /-- It is bound to one value for each parameter, in order: what is given, or else the default shown. -/
  values : ∀ (arguments : Option Arguments) (values : List Json), s.bind (arguments.getD []) = .ok values →
    values.map some = s.parameters.map fun p =>
      match Members.get? p.name (arguments.getD []) with
      | some given => some given
      | none => (Members.get? p.name properties).bind (·.member? "default")
  /-- The schema requires the parameters without any default, in order, if there are some. -/
  required : (s.inputSchema records).member? "required" =
    if (s.parameters.filter (·.default.isNone)).isEmpty then none
    else some (.list ((s.parameters.filter (·.default.isNone)).map fun p => .text p.name))
  /-- It shows no default for what it requires. -/
  no_default : ∀ p ∈ s.parameters, p.default = none →
    ∃ schema, Members.get? p.name properties = some schema ∧ schema.member? "default" = none

/-- **Schema and binder agree**, for every stub whose parameters have distinct names, whatever their types
and whatever the records. -/
theorem bind_iff_inputSchema (s : Stub) (records : List Record)
    (distinct : (s.parameters.map (·.name)).Nodup) : ∃ properties, Advertises s records properties := by
  have hdefault : ∀ p ∈ s.parameters,
      (Members.get? p.name (s.properties records)).bind (·.member? "default") = p.defaultJson? := fun p hp => by
    rw [Stub.get?_properties_of_mem distinct hp, Option.bind_some, StubParameter.member?_schema_default]
  refine ⟨s.properties records, s.member?_inputSchema_properties records, ?_, ?_, ?_, ?_⟩
  · intro arguments
    simp only [Stub.bind_eq_ok_iff, exists_and_left, Binding.exists_values_iff, Stub.get?_properties_isSome_iff]
    refine and_congr_right fun _ => forall₂_congr fun p hp => forall_congr' fun _ => ?_
    rw [← hdefault p hp, Stub.get?_properties_of_mem distinct hp]
    simp
  · intro arguments values h
    rw [Binding.values_eq_ok_iff.1 (Stub.bind_eq_ok_iff.1 h).2]
    refine List.map_congr_left fun p hp => ?_
    cases Members.get? p.name (arguments.getD []) with
    | some v => rfl
    | none => simp only [Option.none_or, hdefault p hp]
  · rw [Stub.member?_inputSchema_required, Stub.requiredNames]
    simp only [StubParameter.isRequired, List.map_eq_nil_iff, List.isEmpty_iff, List.map_map]
    rfl
  · intro p hp hnone
    refine ⟨_, Stub.get?_properties_of_mem distinct hp, ?_⟩
    rw [StubParameter.member?_schema_default, StubParameter.defaultJson?, hnone]

/-- A stub with all sorts of parameters: required with a description, of a record type with a null
default, and with a default that is no literal. -/
def sampleStub : Stub where
  name := "list_functions"
  description := some "List functions"
  parameters := [
    ⟨"offset", .name "int", some "Where to start", none⟩,
    ⟨"filter", .binary (.name "Filter") "|" (.literal .none), none, some (.literal .none)⟩,
    ⟨"count", .name "int", none, some (.name "PAGE")⟩]
  returns := some (.name "str")

theorem bind_iff_inputSchema_sampleStub :
    (sampleStub.parameters.map (·.name)).Nodup ∧
      ∃ properties, Advertises sampleStub [⟨"Filter", [("default", .name "str")]⟩] properties :=
  ⟨by decide, bind_iff_inputSchema sampleStub [⟨"Filter", [("default", .name "str")]⟩] (by decide)⟩

example : sampleStub.bind [("count", .int 5), ("offset", .int 0)] = .ok [.int 0, .null, .int 5] := rfl

end PluginTools
