/-
Which records the schema of a stub depends on. A record is looked up by its name alone, so only the records whose names
can be reached from the types of the parameters matter, through names, names in strings and the fields of records that
are reached; and where names are distinct, the order of the records does not matter either. The records that are
entered on the way are then the same, and so are the places where the expansion is cut off.
-/
import Mathlib.Data.List.Nodup
import PluginTools.Proofs.TypeSchemas

namespace PluginTools

/-! ## What is reached -/

/-- A type refers to a name if it is that name, be it written as a string, or if a type in it does. -/
inductive Expr.RefersTo : Expr → String → Prop
  | here {type : Expr} {name : String} : type.reference? = some name → RefersTo type name
  | part {type part : Expr} {name : String} : part ∈ type.parts → RefersTo part name → RefersTo type name

/-- A name that is reached from types: one of them refers to it, or a field of a record that is reached does. -/
inductive Reached (records : List Record) (types : List Expr) : String → Prop
  | type {type : Expr} {name : String} : type ∈ types → type.RefersTo name → Reached records types name
  | field {r : Record} {field : String × Expr} {name : String} : Reached records types r.name → r ∈ records →
    field ∈ r.fields → field.2.RefersTo name → Reached records types name

/-- A type that is a name refers to no other. -/
theorem Expr.RefersTo.eq_of_reference {type : Expr} {name other : String} (h : type.RefersTo name)
    (hother : type.reference? = some other) : name = other := by
  cases h with
  | here h => exact Option.some.inj (h.symm.trans hother)
  | part hpart _ =>
    rw [parts_of_reference hother] at hpart
    cases hpart

/-! ## Looking up -/

/-- Where no two records have the name, the one that is found is the one that has it. -/
theorem find?_eq_some_iff_of_unique {records : List Record} {name : String}
    (unique : ∀ r ∈ records, ∀ r' ∈ records, r.name = name → r'.name = name → r = r') {r : Record} :
    records.find? (·.name = name) = some r ↔ r ∈ records ∧ r.name = name := by
  have hfound : ∀ {r}, records.find? (·.name = name) = some r → r ∈ records ∧ r.name = name := fun h =>
    ⟨List.mem_of_find?_eq_some h, by simpa using List.find?_some h⟩
  refine ⟨hfound, fun ⟨hr, hname⟩ => ?_⟩
  cases h : records.find? (·.name = name) with
  | none => exact absurd (decide_eq_true hname) (List.find?_eq_none.1 h r hr)
  | some r' => rw [unique r hr r' (hfound h).1 hname (hfound h).2]

/-- Among records of distinct names in any order, and among any others that do not have the name, the same record is
found. -/
theorem find?_of_perm_append {records records' added : List Record} {name : String}
    (distinct : (records.map (·.name)).Nodup) (order : (records ++ added).Perm records')
    (outside : name ∉ added.map (·.name)) :
    records.find? (·.name = name) = records'.find? (·.name = name) := by
  have among : ∀ r, r ∈ records ∧ r.name = name ↔ r ∈ records' ∧ r.name = name := by
    refine fun r => and_congr_left fun hname => ⟨fun hr => order.mem_iff.1 (List.mem_append_left _ hr), fun hr => ?_⟩
    refine (List.mem_append.1 (order.mem_iff.2 hr)).resolve_right fun h => ?_
    exact outside (List.mem_map.2 ⟨r, h, hname⟩)
  have unique : ∀ r ∈ records, ∀ r' ∈ records, r.name = name → r'.name = name → r = r' :=
    fun r hr r' hr' hname hname' => List.inj_on_of_nodup_map distinct hr hr' (hname.trans hname'.symm)
  have unique' : ∀ r ∈ records', ∀ r' ∈ records', r.name = name → r'.name = name → r = r' :=
    fun r hr r' hr' hname hname' =>
      unique r ((among r).2 ⟨hr, hname⟩).1 r' ((among r').2 ⟨hr', hname'⟩).1 hname hname'
  refine Option.ext fun r => ?_
  rw [find?_eq_some_iff_of_unique unique, find?_eq_some_iff_of_unique unique']
  exact among r

/-! ## Schemas -/

section

variable {records records' : List Record} {types : List Expr}
  (same : ∀ name, Reached records types name →
    records.find? (·.name = name) = records'.find? (·.name = name))

include same

/-- A name is entered in both lists of records or in none. -/
theorem Schema.named_of_same {entered : List String} {name : String} (reached : Reached records types name)
    (hfields : ∀ r, Enters records entered name r → ∀ field ∈ r.fields,
      within records (name :: entered) field.2 = within records' (name :: entered) field.2) :
    named records entered name = named records' entered name := by
  cases hbuiltin : builtin? name with
  | some s => rw [named_of_builtin hbuiltin, named_of_builtin hbuiltin]
  | none =>
    cases hfound : records.find? (·.name = name) with
    | none => rw [named_of_unknown hbuiltin hfound, named_of_unknown hbuiltin (same name reached ▸ hfound)]
    | some r =>
      have hfound' : records'.find? (·.name = name) = some r := same name reached ▸ hfound
      by_cases henters : Enters records entered name r
      · have henters' : Enters records' entered name r := ⟨hbuiltin, hfound', henters.room, henters.outside⟩
        have hmap := List.map_congr_left fun field hfield => congrArg (Prod.mk field.1) (hfields r henters field hfield)
        rw [named_of_enters henters, named_of_enters henters', hmap]
      · have hnot' : ¬Enters records' entered name r := fun h => henters ⟨hbuiltin, hfound, h.room, h.outside⟩
        rw [named_of_not_enters hbuiltin hfound henters, named_of_not_enters hbuiltin hfound' hnot']

/-- A type has the same schema in two lists of records that agree on what is reached, inside the same records. -/
theorem Schema.within_of_same (entered : List String) (type : Expr)
    (reached : ∀ name, type.RefersTo name → Reached records types name) :
    within records entered type = within records' entered type := by
  induction entered, type using @unfolding_induction records with
  | step entered type hparts hfields =>
    refine within_congr (fun part hpart => hparts part hpart fun name h => reached name (.part hpart h)) ?_
    intro name hname
    have hreached : Reached records types name := reached name (.here hname)
    refine named_of_same same hreached fun r henters field hfield => hfields name r hname henters field hfield ?_
    have hr : r.name = name := by simpa using List.find?_some henters.found
    exact fun other h => .field (hr ▸ hreached) (List.mem_of_find?_eq_some henters.found) hfield h

end

theorem Stub.inputSchema_of_same {s : Stub} {records records' : List Record}
    (same : ∀ name, Reached records (s.parameters.map (·.type)) name →
      records.find? (·.name = name) = records'.find? (·.name = name)) :
    s.inputSchema records = s.inputSchema records' := by
  have hparameters : s.parameters.map (fun p => (p.name, p.schema records)) =
      s.parameters.map fun p => (p.name, p.schema records') := by
    refine List.map_congr_left fun p hp => ?_
    have htype : Schema.ofType records p.type = Schema.ofType records' p.type :=
      Schema.within_of_same same [] p.type fun name h => .type (List.mem_map_of_mem hp) h
    rw [StubParameter.schema, StubParameter.schema, htype]
  rw [inputSchema, inputSchema, hparameters]

/-- **Schemas do not depend on how records were collected**: not on the order of records of distinct names, and not on
records whose names are not reached from the types of the parameters. -/
theorem inputSchema_ignores_order (s : Stub) {records : List Record} (distinct : (records.map (·.name)).Nodup) :
    (∀ records', records.Perm records' → s.inputSchema records = s.inputSchema records') ∧
      ∀ added, (∀ r ∈ added, ¬Reached records (s.parameters.map (·.type)) r.name) →
        ∀ records', (records ++ added).Perm records' → s.inputSchema records = s.inputSchema records' := by
  have added_ignored : ∀ added, (∀ r ∈ added, ¬Reached records (s.parameters.map (·.type)) r.name) →
      ∀ records', (records ++ added).Perm records' → s.inputSchema records = s.inputSchema records' := by
    intro added unreached records' order
    refine Stub.inputSchema_of_same fun name reached => find?_of_perm_append distinct order ?_
    intro hname
    obtain ⟨r, hr, rfl⟩ := List.mem_map.1 hname
    exact unreached r hr reached
  refine ⟨fun records' order => added_ignored [] (by simp) records' ?_, added_ignored⟩
  rwa [List.append_nil]

/-- Records that refer to each other. -/
def knottedRecords : List Record := [
  ⟨"Node", [("edges", .subscript (.name "list") (.name "Edge"))]⟩,
  ⟨"Edge", [("target", Expr.text "Node")]⟩]

/-- A record that refers to one of them and to which none refers. -/
def spareRecord : Record := ⟨"Spare", [("node", .name "Node")]⟩

def knottedStub : Stub where
  name := "walk"
  description := none
  parameters := [⟨"start", .name "Node", none, none⟩]
  returns := none

theorem inputSchema_ignores_order_knotted : (knottedRecords.map (·.name)).Nodup ∧
    ¬Reached knottedRecords (knottedStub.parameters.map (·.type)) spareRecord.name ∧
    knottedStub.inputSchema knottedRecords = knottedStub.inputSchema knottedRecords.reverse ∧
    knottedStub.inputSchema knottedRecords = knottedStub.inputSchema (spareRecord :: knottedRecords.reverse) := by
  have distinct : (knottedRecords.map (·.name)).Nodup := by decide
  have unreached : ∀ name, Reached knottedRecords (knottedStub.parameters.map (·.type)) name → name ≠ "Spare" := by
    intro name h
    cases h with
    | type htype h =>
      obtain rfl := List.mem_singleton.1 htype
      simp [h.eq_of_reference rfl]
    | field _ hr hfield h =>
      simp only [knottedRecords, List.mem_cons, List.not_mem_nil, or_false] at hr
      rcases hr with rfl | rfl
      · obtain rfl := List.mem_singleton.1 hfield
        cases h with
        | here h => cases h
        | part hpart h =>
          obtain rfl := List.mem_singleton.1 hpart
          simp [h.eq_of_reference rfl]
      · obtain rfl := List.mem_singleton.1 hfield
        simp [h.eq_of_reference rfl]
  have spare_unreached : ¬Reached knottedRecords (knottedStub.parameters.map (·.type)) spareRecord.name := fun h =>
    unreached _ h rfl
  have ignored := inputSchema_ignores_order knottedStub distinct
  have order : (knottedRecords ++ [spareRecord]).Perm (spareRecord :: knottedRecords.reverse) :=
    List.perm_append_comm.trans ((List.reverse_perm knottedRecords).symm.cons spareRecord)
  exact ⟨distinct, spare_unreached, ignored.1 _ (List.reverse_perm knottedRecords).symm,
    ignored.2 [spareRecord] (by simpa using spare_unreached) _ order⟩

end PluginTools
