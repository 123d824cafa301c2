/-
The list of tools. `catalog_lists` says what the catalog of any set that was loaded or generated holds: the
check of the connection, then one tool for each stub of another name, in order; and that each of them is found
under its name and calls the plugin's method of that name.

That no name is listed twice is checked nowhere. It holds because the functions are collected by name before
their stubs are built, and a stub has the name of its function.
-/
import Mathlib.Data.List.Nodup
import PluginTools.Call.Session
import PluginTools.Proofs.Generation

namespace PluginTools

/-! ## Distinct names -/

/-- A set of stubs that was loaded, or built from what was generated. -/
inductive StubSet.Arises : StubSet → Prop
  | loaded {ds : List Declaration} {set : StubSet} : StubSet.load ds = .ok set → Arises set
  | generated {ds : List Declaration} {g : Generated} {set : StubSet} :
    generate ds = .ok g → g.stubs = .ok set → Arises set

theorem Stub.name_ofFunction {f : Function} {s : Stub} (h : Stub.ofFunction f = .ok s) : s.name = f.name := by
  unfold Stub.ofFunction at h
  split at h
  · cases h
  · split at h
    · cases h
    · cases h
      rfl

theorem StubSet.Arises.distinct {set : StubSet} (h : set.Arises) : (set.stubs.map (·.name)).Nodup := by
  cases h with
  | loaded h =>
    simp only [load, ofDefinitions, Except.bind_eq_ok_iff, Except.ok.injEq] at h
    obtain ⟨ss, hss, rfl⟩ := h
    have hnames := map_eq_map_of_forall₂ (f := Function.name) (g := Stub.name)
      (fun hs => (Stub.name_ofFunction hs).symm) (stubsOf_eq_ok_iff.1 hss)
    exact hnames ▸ Roster.nodup_map_values_ofList _ _
  | generated h hset =>
    obtain ⟨ss, -, hss⟩ := stubs_ok h
    obtain rfl := Except.ok.inj (hss.symm.trans hset)
    exact Roster.nodup_map_values_ofList _ _

/-! ## Looking up -/

namespace Catalog

theorem get?_eq_none_iff {c : Catalog} {n : String} : c.get? n = none ↔ n ∉ c.names := by
  simp [get?, names, List.find?_eq_none]

theorem mem_of_get? {c : Catalog} {n : String} {t : Tool} (h : c.get? n = some t) : t ∈ c.tools ∧ t.name = n :=
  ⟨List.mem_of_find?_eq_some h, by simpa using List.find?_some h⟩

variable {set : StubSet} {n : String} {t : Tool}

theorem names_ofStubs (set : StubSet) : (ofStubs set).names =
    Tool.checkConnection.name :: (set.stubs.map (·.name)).filter (· != Tool.checkConnection.name) := by
  simp only [names, ofStubs, List.map_cons, List.map_map, List.filter_map]
  rfl

/-- A name is listed twice only if two stubs have it. -/
theorem nodup_names (distinct : (set.stubs.map (·.name)).Nodup) : (ofStubs set).names.Nodup := by
  rw [names_ofStubs, List.nodup_cons]
  exact ⟨by simp, distinct.filter _⟩

/-- What a tool that is found does: under the name of the connection check the check, and under any other name a
call of a stub of that name. No name need be distinct for this. -/
theorem action_of_get? (h : (ofStubs set).get? n = some t) :
    (n = Tool.checkConnection.name ∧ t.action = .checkConnection) ∨
      (n ≠ Tool.checkConnection.name ∧ ∃ s ∈ set.stubs, s.name = n ∧ t.action = .forward s) := by
  obtain ⟨hmem, hname⟩ := mem_of_get? h
  rcases List.mem_cons.1 hmem with rfl | hmem
  · exact .inl ⟨hname.symm, rfl⟩
  · obtain ⟨s, hs, rfl⟩ := List.mem_map.1 hmem
    obtain ⟨hs, hne⟩ := List.mem_filter.1 hs
    have hne : s.name ≠ Tool.checkConnection.name := by simpa using hne
    exact .inr ⟨hname ▸ hne, s, hs, hname, rfl⟩

/-- Where names are distinct, a name finds the one tool that bears it. -/
theorem get?_eq_some_iff {c : Catalog} (distinct : c.names.Nodup) :
    c.get? n = some t ↔ (t ∈ c.tools ∧ t.name = n) ∧ ∀ t' ∈ c.tools, t'.name = n → t' = t := by
  constructor
  · intro h
    obtain ⟨hmem, hname⟩ := mem_of_get? h
    exact ⟨⟨hmem, hname⟩, fun t' ht' hn => List.inj_on_of_nodup_map distinct ht' hmem (hn.trans hname.symm)⟩
  · rintro ⟨⟨hmem, hname⟩, honly⟩
    cases hfound : c.get? n with
    | none => exact absurd (hname ▸ List.mem_map_of_mem hmem) (get?_eq_none_iff.1 hfound)
    | some t' => rw [honly t' (mem_of_get? hfound).1 (mem_of_get? hfound).2]

end Catalog

/-! ## The whole list -/

/-- A tool that offers a stub and calls it. -/
structure Tool.Serves (records : List Record) (t : Tool) (s : Stub) : Prop where
  name : t.name = s.name
  inputSchema : t.inputSchema = s.inputSchema records
  action : t.action = .forward s

/-- What a catalog of a set lists and finds. -/
structure Catalog.Lists (c : Catalog) (set : StubSet) : Prop where
  /-- No name is listed twice. -/
  distinct : c.names.Nodup
  /-- The check of the connection comes first. -/
  first : ∃ t, c.tools.head? = some t ∧ t.name = "check_connection" ∧ t.action = .checkConnection
  /-- The others serve the stubs of other names, one each and in order. -/
  rest : List.Forall₂ (Tool.Serves set.records) c.tools.tail (set.stubs.filter (·.name != "check_connection"))
  /-- A name finds the one tool that bears it. -/
  found : ∀ n t, c.get? n = some t ↔ (t ∈ c.tools ∧ t.name = n) ∧ ∀ t' ∈ c.tools, t'.name = n → t' = t
  /-- A dispatch of a listed name is the probe of the connection, or it forwards to the stub of that name: with
  arguments that can be bound it asks for the method of that name, and with others for nothing. -/
  dispatched : ∀ n t, c.get? n = some t →
    (n = "check_connection" ∧ t.action = .checkConnection ∧ ∀ client reaction arguments,
      ((⟨c, client⟩ : Session).step reaction (.dispatch n arguments)).2.sent =
        some (client.request "get_metadata" [])) ∨
    (n ≠ "check_connection" ∧ ∃ s ∈ set.stubs, s.name = n ∧ t.action = .forward s ∧ ∀ client reaction arguments,
      ((⟨c, client⟩ : Session).step reaction (.dispatch n arguments)).2.sent =
        (s.bind arguments).toOption.map (client.request n))

namespace Session

variable {s : Session} {n : String} {t : Tool} {reaction : Reaction} {arguments : Arguments}

/-- A dispatch of the connection check sends the probe. -/
theorem step_of_check (hfound : s.catalog.get? n = some t) (haction : t.action = .checkConnection) :
    s.step reaction (.dispatch n arguments) = s.exchange Connection.probe [] reaction
      fun o => .toolResult false (Connection.report o) := by
  simp only [step, hfound, haction]

/-- A dispatch of a tool that forwards calls the method of the stub's name if the arguments can be bound. -/
theorem step_of_bound {stub : Stub} {parameters : List Json} (hfound : s.catalog.get? n = some t)
    (haction : t.action = .forward stub) (hbound : stub.bind arguments = .ok parameters) :
    s.step reaction (.dispatch n arguments) = s.exchange stub.name parameters reaction .ofOutcome := by
  simp only [step, hfound, haction, hbound]

/-- It is refused if they cannot. -/
theorem step_of_unbound {stub : Stub} {fault : Binding.Fault} (hfound : s.catalog.get? n = some t)
    (haction : t.action = .forward stub) (hbound : stub.bind arguments = .error fault) :
    s.step reaction (.dispatch n arguments) = s.refuse (.unbound stub.name fault) := by
  simp only [step, hfound, haction, hbound]

end Session

/-- **A catalog lists every tool once and finds what it lists**, for every set that was loaded or generated, with
any redefinitions and with a stub that has the name of the connection check. -/
theorem catalog_lists {set : StubSet} (h : set.Arises) : (Catalog.ofStubs set).Lists set where
  distinct := Catalog.nodup_names h.distinct
  first := ⟨Tool.checkConnection, rfl, rfl, rfl⟩
  rest := List.forall₂_map_left_iff.2 (List.forall₂_same.2 fun _ _ => ⟨rfl, rfl, rfl⟩)
  found _ _ := Catalog.get?_eq_some_iff (Catalog.nodup_names h.distinct)
  dispatched n t hfound := by
    rcases Catalog.action_of_get? hfound with ⟨hname, haction⟩ | ⟨hne, stub, hs, hname, haction⟩
    · refine .inl ⟨hname, haction, fun client reaction arguments => ?_⟩
      rw [Session.step_of_check (s := ⟨.ofStubs set, client⟩) hfound haction]
      rfl
    · obtain rfl := hname
      refine .inr ⟨hne, stub, hs, rfl, haction, fun client reaction arguments => ?_⟩
      cases hbound : stub.bind arguments with
      | error fault =>
        rw [Session.step_of_unbound (s := ⟨.ofStubs set, client⟩) hfound haction hbound]
        rfl
      | ok parameters =>
        rw [Session.step_of_bound (s := ⟨.ofStubs set, client⟩) hfound haction hbound]
        rfl

/-- A module with a function defined twice and one that has the name of the connection check. -/
def shadowingModule : List Declaration :=
  let stub (name : String) (parameters : List String) : Declaration := .ofFunction {
    name
    decorators := [Vocabulary.toolMark]
    parameters := parameters.map fun p => ⟨p, .positional, some (.name "str"), none⟩
    returns := none
    body := [.result (some (forwardCall name parameters))]
    line := 1 }
  [stub "rename" [], stub "check_connection" [], stub "list_types" ["filter"], stub "rename" ["old", "new"]]

theorem catalog_lists_shadowingModule : ∃ set, StubSet.load shadowingModule = .ok set ∧
    set.stubs.map (·.name) = ["rename", "check_connection", "list_types"] ∧ (Catalog.ofStubs set).Lists set :=
  ⟨_, rfl, rfl, catalog_lists (.loaded (show StubSet.load shadowingModule = .ok _ from rfl))⟩

end PluginTools
