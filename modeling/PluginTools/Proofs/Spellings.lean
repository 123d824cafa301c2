/-
Spellings of one type. A union can be written with bars, nested in any way, or by name; what is optional, with a bar
or by name; notes can be put on a type, and a comma behind a sole argument. `spellings_same_schema` says that
schemas do not tell such spellings apart, wherever they stand in a type or in the fields of records, and whatever
records are entered.
-/
import PluginTools.Proofs.Arrivals
import PluginTools.Proofs.TypeSchemas

namespace PluginTools

namespace Expr

def isTuple : Expr → Bool
  | .tuple _ => true
  | _ => false

theorem arguments_of_not_tuple {e : Expr} (h : e.isTuple = false) : e.arguments = [e] := by
  cases e <;> simp_all [isTuple, arguments]

theorem options_of_not_union {e : Expr} (h : Schema.isUnion e = false) : e.options = [e] := by
  cases e <;> simp_all [Schema.isUnion, options]

end Expr

/-- Two spellings of one type. An argument of a type by name may be respelled in its place, except for a choice of
literals; and so may a member of a union with bars, by way of the union by name. -/
inductive Respelling : Expr → Expr → Prop
  | refl (e : Expr) : Respelling e e
  | symm {e e' : Expr} : Respelling e e' → Respelling e' e
  | trans {e e' e'' : Expr} : Respelling e e' → Respelling e' e'' → Respelling e e''
  /-- The members of a union from left to right; none of them is a union. -/
  | union (left right : Expr) : Respelling (.binary left "|" right)
    (.subscript (.name "Union") (.tuple (left.options ++ right.options)))
  | optional {e : Expr} : Schema.isUnion e = false → e.isTuple = false →
    Respelling (.subscript (.name "Optional") e) (.binary e "|" (.literal .none))
  | annotated (e : Expr) (notes : List Expr) : Respelling (.subscript (.name "Annotated") (.tuple (e :: notes))) e
  | comma (wrapper : Expr) {e : Expr} : e.isTuple = false →
    Respelling (.subscript wrapper (.tuple [e])) (.subscript wrapper e)
  | item {wrapper e e' : Expr} : Wrapper.ofName (wrapper.name?.getD "") ≠ .literal → e.isTuple = false →
    e'.isTuple = false → Respelling e e' → Respelling (.subscript wrapper e) (.subscript wrapper e')
  | argument {wrapper e e' : Expr} (before after : List Expr) : Wrapper.ofName (wrapper.name?.getD "") ≠ .literal →
    Respelling e e' →
    Respelling (.subscript wrapper (.tuple (before ++ e :: after))) (.subscript wrapper (.tuple (before ++ e' :: after)))

/-- The same record, but for the spellings of the types of its fields. -/
structure Record.Respelled (r r' : Record) : Prop where
  name : r.name = r'.name
  fields : List.Forall₂ (fun field field' => field.1 = field'.1 ∧ Respelling field.2 field'.2) r.fields r'.fields

/-- The same parameter, but for the spelling of its type. -/
structure StubParameter.Respelled (p p' : StubParameter) : Prop where
  name : p.name = p'.name
  description : p.description = p'.description
  default : p.default = p'.default
  type : Respelling p.type p'.type

namespace Schema

variable {records records' : List Record} {entered : List String}

/-! ## Types -/

/-- Respelled arguments of a type by name. -/
theorem within_arguments {wrapper slice slice' : Expr} (h : Wrapper.ofName (wrapper.name?.getD "") ≠ .literal)
    (hsame : slice.arguments.map (within records entered) = slice'.arguments.map (within records entered)) :
    within records entered (.subscript wrapper slice) = within records entered (.subscript wrapper slice') := by
  rw [within_subscript, within_subscript, hsame]
  exact Wrapper.schema_of_ne_literal h _ _ _

theorem within_respelling {e e' : Expr} (h : Respelling e e') : within records entered e = within records entered e' := by
  induction h with
  | refl e => rfl
  | symm _ ih => exact ih.symm
  | trans _ _ ih ih' => exact ih.trans ih'
  | union left right =>
    rw [within_union, within_subscript]
    rfl
  | @optional e hunion htuple =>
    rw [within_union, within_subscript, Expr.arguments_of_not_tuple htuple, Expr.options_of_not_union hunion]
    rfl
  | annotated e notes =>
    rw [within_subscript]
    rfl
  | comma wrapper htuple =>
    rw [within_subscript, within_subscript, Expr.arguments_of_not_tuple htuple]
    rfl
  | item hwrapper htuple htuple' _ ih =>
    refine within_arguments hwrapper ?_
    rw [Expr.arguments_of_not_tuple htuple, Expr.arguments_of_not_tuple htuple', List.map_singleton, ih,
      List.map_singleton]
  | argument before after hwrapper _ ih =>
    refine within_arguments hwrapper ?_
    simp only [Expr.arguments, List.map_append, List.map_cons, ih]

/-! ## Records -/

/-- A name is looked up in respelled records as in the others. -/
theorem find?_respelled (h : List.Forall₂ Record.Respelled records records') (name : String) :
    records.find? (·.name = name) = none ∧ records'.find? (·.name = name) = none ∨
      ∃ r r', records.find? (·.name = name) = some r ∧ records'.find? (·.name = name) = some r' ∧ r.Respelled r' := by
  induction h with
  | nil => exact .inl ⟨rfl, rfl⟩
  | @cons r r' _ _ hr _ ih =>
    by_cases hname : r.name = name
    · exact .inr ⟨r, r', by simp [hname], by simp [← hr.name, hname], hr⟩
    · simpa [← hr.name, hname] using ih

/-- Fields with respelled types give the same fields of a schema if a type does, in the one list of records or in
the other. -/
theorem fields_respelled {fields fields' : List (String × Expr)}
    (h : List.Forall₂ (fun field field' => field.1 = field'.1 ∧ Respelling field.2 field'.2) fields fields')
    (hsame : ∀ field ∈ fields, within records entered field.2 = within records' entered field.2) :
    fields.map (fun field => (field.1, within records entered field.2)) =
      fields'.map fun field => (field.1, within records' entered field.2) := by
  have hrecords : fields.map (fun field => (field.1, within records entered field.2)) =
      fields.map fun field => (field.1, within records' entered field.2) :=
    List.map_congr_left fun field hfield => by rw [hsame field hfield]
  rw [hrecords]
  exact map_eq_map_of_forall₂ (fun hfield => by rw [hfield.1, within_respelling hfield.2]) h

theorem named_respelled (h : List.Forall₂ Record.Respelled records records') {name : String}
    (hsame : ∀ r, Enters records entered name r → ∀ field ∈ r.fields,
      within records (name :: entered) field.2 = within records' (name :: entered) field.2) :
    named records entered name = named records' entered name := by
  cases hbuiltin : builtin? name with
  | some s => rw [named_of_builtin hbuiltin, named_of_builtin hbuiltin]
  | none =>
    rcases find?_respelled h name with ⟨hnone, hnone'⟩ | ⟨r, r', hr, hr', hrespelled⟩
    · rw [named_of_unknown hbuiltin hnone, named_of_unknown hbuiltin hnone']
    · by_cases henters : Enters records entered name r
      · have henters' : Enters records' entered name r' := ⟨hbuiltin, hr', henters.room, henters.outside⟩
        rw [named_of_enters henters, named_of_enters henters', fields_respelled hrespelled.fields (hsame r henters)]
      · have hnot' : ¬Enters records' entered name r' := fun h => henters ⟨hbuiltin, hr, h.room, h.outside⟩
        rw [named_of_not_enters hbuiltin hr henters, named_of_not_enters hbuiltin hr' hnot']

theorem within_records_respelled (h : List.Forall₂ Record.Respelled records records') (entered : List String)
    (e : Expr) : within records entered e = within records' entered e := by
  induction entered, e using @unfolding_induction records with
  | step entered e hparts hfields => exact within_congr hparts fun name hname => named_respelled h (hfields name · hname)

end Schema

/-! ## Input schemas -/

section

variable {records records' : List Record} (h : List.Forall₂ Record.Respelled records records')

include h

theorem StubParameter.schema_respelled {p p' : StubParameter} (hp : p.Respelled p') :
    p.schema records = p'.schema records' := by
  have htype : Schema.ofType records p.type = Schema.ofType records' p'.type :=
    (Schema.within_records_respelled h [] p.type).trans (Schema.within_respelling hp.type)
  simp only [schema, defaultJson?, htype, hp.description, hp.default]

theorem StubParameter.properties_respelled {ps ps' : List StubParameter}
    (hs : List.Forall₂ StubParameter.Respelled ps ps') :
    ps.map (fun p => (p.name, p.schema records)) = ps'.map fun p => (p.name, p.schema records') :=
  map_eq_map_of_forall₂ (fun hp => by rw [hp.name, StubParameter.schema_respelled h hp]) hs

omit h in
theorem StubParameter.required_respelled {ps ps' : List StubParameter}
    (hs : List.Forall₂ StubParameter.Respelled ps ps') :
    (ps.filter (·.isRequired)).map (·.name) = (ps'.filter (·.isRequired)).map (·.name) := by
  induction hs with
  | nil => rfl
  | @cons p p' _ _ hp _ ih =>
    have hsame : p.isRequired = p'.isRequired := congrArg Option.isNone hp.default
    rw [List.filter_cons, List.filter_cons, hsame]
    split
    · rw [List.map_cons, List.map_cons, ih, hp.name]
    · exact ih

theorem Stub.inputSchema_respelled {s s' : Stub}
    (hs : List.Forall₂ StubParameter.Respelled s.parameters s'.parameters) :
    s.inputSchema records = s'.inputSchema records' := by
  rw [inputSchema, inputSchema, requiredNames, requiredNames, StubParameter.properties_respelled h hs,
    StubParameter.required_respelled hs]

end

/-- **Schemas do not tell spellings apart**: neither those of types, wherever the respelled types stand and whatever
records are entered, nor those of the arguments of stubs. -/
theorem spellings_same_schema {records records' : List Record} (h : List.Forall₂ Record.Respelled records records') :
    (∀ entered e e', Respelling e e' → Schema.within records entered e = Schema.within records' entered e') ∧
      ∀ s s' : Stub, List.Forall₂ StubParameter.Respelled s.parameters s'.parameters →
        s.inputSchema records = s'.inputSchema records' :=
  ⟨fun entered e _ he => (Schema.within_records_respelled h entered e).trans (Schema.within_respelling he),
    fun _ _ hs => Stub.inputSchema_respelled h hs⟩

/-- A record that refers to itself by way of `Optional`. -/
def optionalNode : Record := ⟨"Node", [("next", .subscript (.name "Optional") (.name "Node"))]⟩

/-- The same record with a bar. -/
def barredNode : Record := ⟨"Node", [("next", .binary (.name "Node") "|" (.literal .none))]⟩

/-- A list of nodes or numbers, with bars. -/
def barredList : Expr := .subscript (.name "list") (.binary (.name "Node") "|" (.name "int"))

/-- The same list with `Union`, and with a comma behind its item. -/
def unionList : Expr := .subscript (.name "list")
  (.tuple [.subscript (.name "Union") (.tuple [.name "Node", .name "int"])])

theorem spellings_same_schema_nodes : List.Forall₂ Record.Respelled [optionalNode] [barredNode] ∧
    Respelling barredList unionList ∧
    Schema.within [optionalNode] ["Edge"] barredList = Schema.within [barredNode] ["Edge"] unionList := by
  have hrecords : List.Forall₂ Record.Respelled [optionalNode] [barredNode] :=
    .cons ⟨rfl, .cons ⟨rfl, .optional rfl rfl⟩ .nil⟩ .nil
  have hlist : Respelling barredList unionList :=
    .trans (.item (show Wrapper.list ≠ .literal from nofun) rfl rfl (.union (.name "Node") (.name "int")))
      (.symm (.comma (.name "list") rfl))
  exact ⟨hrecords, hlist, (spellings_same_schema hrecords).1 ["Edge"] _ _ hlist⟩

end PluginTools
