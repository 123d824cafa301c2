/-
Loading a generated module. The loader takes the records and the forwarding functions of the text for what they
are; so it fails where the text is not read, and otherwise it builds the set of stubs that generation built, with
its types as they are read.
-/
import PluginTools.Proofs.ModuleText

namespace PluginTools

/-! ## What is read -/

/-- The parameter of a stub that is read off a text, if its type is one. -/
def StubParameter.typed (p : StubParameter) : Option StubParameter := p.type.typeOf.map fun type => { p with type }

/-- The stub that is read off a text, if its types are types. -/
def Stub.typed (s : Stub) : Option Stub :=
  (s.parameters.mapM StubParameter.typed).bind fun parameters => (Expr.returnOf s.returns).map fun returns =>
    { s with parameters, returns }

/-- The set of stubs that is read off a text, if its types are types. -/
def StubSet.typed (s : StubSet) : Option StubSet :=
  (s.stubs.mapM Stub.typed).map fun stubs => { s with stubs }

/-! ## Types with a description -/

/-- The descriptor of a type with a description is left alone, whatever the type is read as. -/
theorem typeOf_describedType (type : Expr) (description : String) :
    (Vocabulary.describedType type description).typeOf =
      type.typeOf.map (Vocabulary.describedType · description) := by
  have hdescriptor : (Expr.call (.name Vocabulary.descriptor) [] [(Vocabulary.descriptorKeyword, .text description)]).typeOf =
      some (.call (.name Vocabulary.descriptor) [] [(Vocabulary.descriptorKeyword, .text description)]) :=
    Expr.typeOf_of_not_startsType rfl
  have hstart : (Vocabulary.describedType type description).startsType := rfl
  rw [Expr.typeOf_of_startsType hstart, Vocabulary.describedType, Expr.openType_subscript_name]
  cases htype : type.typeOf with
  | none => simp [Expr.indices, htype]
  | some t => simp [Expr.indices, htype, hdescriptor, Rules.parametersOf, Vocabulary.describedType]

theorem mapM_rel {R : α → β → Prop} {S : γ → δ → Prop} {f : α → Option γ} {k : β → Option δ}
    (h : ∀ a b, R a b → Option.Rel S (f a) (k b)) {xs : List α} {ys : List β} (hxs : List.Forall₂ R xs ys) :
    Option.Rel (List.Forall₂ S) (xs.mapM f) (ys.mapM k) := by
  induction hxs with
  | nil => exact .some .nil
  | @cons x y xs ys hxy _ ih =>
    have hfirst := h x y hxy
    rw [List.mapM_cons, List.mapM_cons]
    generalize f x = a, k y = b, xs.mapM f = as, ys.mapM k = bs at *
    cases hfirst with
    | none => exact .none
    | some hab =>
      cases ih with
      | none => exact .none
      | some hrest => exact .some (.cons hab hrest)

theorem carries_typed {p : Parameter} {q : StubParameter} (h : Carries p q) :
    Option.Rel Carries p.typed q.typed := by
  cases h with
  | bare name id default => exact .some (.bare name id default)
  | described name type description default =>
    simp only [Parameter.typed, StubParameter.typed, typeOf_describedType]
    cases type.typeOf with
    | none => exact .none
    | some t => exact .some (.described name t description default)

/-- What each item keeps, a list keeps. -/
theorem map_eq_of_mapM {f : α → Option α} {k : α → γ} (keeps : ∀ {x y}, f x = some y → k y = k x) {xs ys : List α}
    (h : xs.mapM f = some ys) : ys.map k = xs.map k := by
  induction xs generalizing ys with
  | nil =>
    cases h
    rfl
  | cons x xs ih =>
    rw [List.mapM_cons] at h
    obtain ⟨y, hy, h⟩ := Option.bind_eq_some_iff.1 h
    obtain ⟨ys, hys, h⟩ := Option.bind_eq_some_iff.1 h
    cases h
    simp [keeps hy, ih hys]

theorem Parameter.name_typed {p p' : Parameter} (h : p.typed = some p') : p'.name = p.name := by
  unfold Parameter.typed at h
  split at h
  · obtain ⟨t, -, rfl⟩ := Option.map_eq_some_iff.1 h
    rfl
  · cases h
    rfl

theorem Function.name_typed {f f' : Function} (h : f.typed = some f') : f'.name = f.name := by
  obtain ⟨ps, -, h⟩ := Option.bind_eq_some_iff.1 h
  obtain ⟨returns, -, rfl⟩ := Option.map_eq_some_iff.1 h
  rfl

/-- A function that is read off a text forwards to the stub that is. -/
theorem ForwardsTo.typed {f : Function} {s : Stub} (h : ForwardsTo f s) : Option.Rel ForwardsTo f.typed s.typed := by
  have hparameters := mapM_rel (fun _ _ hpq => carries_typed hpq) h.parameters
  unfold Function.typed Stub.typed
  rw [h.returns]
  cases hps : f.parameters.mapM Parameter.typed with
  | none =>
    rw [hps] at hparameters
    generalize s.parameters.mapM StubParameter.typed = qs at *
    cases hparameters
    exact .none
  | some ps =>
    have hnames := map_eq_of_mapM Parameter.name_typed hps
    rw [hps] at hparameters
    generalize s.parameters.mapM StubParameter.typed = qs at *
    cases hparameters with
    | some hqs =>
      cases Expr.returnOf f.returns with
      | none => exact .none
      | some returns =>
        refine .some ⟨⟨h.forwards.decorators, ?_⟩, h.name, h.description, hqs, rfl⟩
        rw [hnames]
        exact h.forwards.body

/-! ## What stubs consist of -/

/-- All types and defaults of a function are of a kind. -/
structure Function.ConsistsOf (f : Function) (P : Expr → Prop) : Prop where
  parameters : ∀ p ∈ f.parameters, (∃ t, p.type = some t ∧ P t) ∧ ∀ d ∈ p.default, P d
  returns : ∀ t ∈ f.returns, P t

/-- All types and defaults of a stub are of a kind. -/
structure Stub.ConsistsOf (s : Stub) (P : Expr → Prop) : Prop where
  parameters : ∀ p ∈ s.parameters, P p.type ∧ ∀ d ∈ p.default, P d
  returns : ∀ t ∈ s.returns, P t

/-- A stub has the types and the defaults of the function that forwards to it. -/
theorem ForwardsTo.consistsOf {P : Expr → Prop} (hP : ∀ type description, P (Vocabulary.describedType type description) → P type)
    {f : Function} {s : Stub} (h : ForwardsTo f s) (hf : f.ConsistsOf P) : s.ConsistsOf P := by
  refine ⟨fun q hq => ?_, h.returns ▸ hf.returns⟩
  obtain ⟨p, hp, hcarries⟩ := exists_of_forall₂_right h.parameters hq
  obtain ⟨⟨t, htype, ht⟩, hdefault⟩ := hf.parameters p hp
  cases hcarries with
  | bare name id default =>
    cases htype
    exact ⟨ht, hdefault⟩
  | described name type description default =>
    cases htype
    exact ⟨hP type description ht, hdefault⟩

/-! ## Loading -/

namespace StubSet

theorem recordClass?_unplaced (ds : List Declaration) : (ds.map Declaration.unplaced).filterMap recordClass? =
    (ds.filterMap recordClass?).map fun c => { c with line := 0 } := by
  rw [List.filterMap_map, List.map_filterMap]
  refine List.filterMap_congr fun d _ => ?_
  cases d with
  | ofClass c => by_cases h : c.hasBase Vocabulary.recordBase <;> simp_all [recordClass?, Declaration.unplaced, Class.hasBase]
  | _ => rfl

theorem toolFunction?_unplaced (ds : List Declaration) : (ds.map Declaration.unplaced).filterMap toolFunction? =
    (ds.filterMap toolFunction?).map fun f => { f with line := 0 } := by
  rw [List.filterMap_map, List.map_filterMap]
  refine List.filterMap_congr fun d _ => ?_
  cases d with
  | ofFunction f =>
    by_cases h : f.decorators.any (·.same Vocabulary.toolMark) <;> simp_all [toolFunction?, Declaration.unplaced]
  | _ => rfl

theorem stubsOf_unplaced (fs : List Function) : stubsOf (fs.map fun f => { f with line := 0 }) = stubsOf fs := by
  induction fs with
  | nil => rfl
  | cons f fs ih =>
    have hstub : Stub.ofFunction { f with line := 0 } = Stub.ofFunction f := rfl
    simp only [List.map_cons, stubsOf, hstub, ih]

/-- The lines of declarations do not decide what is loaded. -/
theorem load_unplaced (ds : List Declaration) : load (ds.map Declaration.unplaced) = load ds := by
  have hrecords := Roster.values_ofList_map Class.name (k := fun c => { c with line := 0 }) (fun _ => rfl)
    (ds.filterMap recordClass?)
  have hfunctions := Roster.values_ofList_map Function.name (k := fun f => { f with line := 0 }) (fun _ => rfl)
    (ds.filterMap toolFunction?)
  simp only [load, recordClass?_unplaced, toolFunction?_unplaced, hrecords, hfunctions, ofDefinitions, stubsOf_unplaced,
    List.map_map]
  rfl

theorem toolMark_same : Vocabulary.toolMark.same Vocabulary.toolMark := by decide

/-- The records and the forwarding functions of a module are loaded as they stand, if their names are distinct. -/
theorem load_moduleDeclarations {cs : List Class} {fs : List Function}
    (hbases : ∀ c ∈ cs, c.hasBase Vocabulary.recordBase) (hmarks : ∀ f ∈ fs, f.Forwards)
    (hclasses : (cs.map (·.name)).Nodup) (hfunctions : (fs.map (·.name)).Nodup) :
    load (Generated.moduleDeclarations cs fs) = ofDefinitions cs fs := by
  have hrecord : ∀ c ∈ cs, recordClass? (.ofClass c) = some c := fun c hc => by simp [recordClass?, hbases c hc]
  have htool : ∀ f ∈ fs, toolFunction? (.ofFunction f) = some f := fun f hf => by
    simp [toolFunction?, (hmarks f hf).decorators, toolMark_same]
  have hrecords : (Generated.moduleDeclarations cs fs).filterMap recordClass? = cs := by
    have hfunction : ∀ f ∈ fs, recordClass? (.ofFunction f) = none := fun _ _ => rfl
    simp only [Generated.moduleDeclarations, List.filterMap_append, List.filterMap_map, Function.comp_def]
    rw [List.filterMap_congr hrecord, List.filterMap_congr hfunction]
    simp [recordClass?]
  have htools : (Generated.moduleDeclarations cs fs).filterMap toolFunction? = fs := by
    have hclass : ∀ c ∈ cs, toolFunction? (.ofClass c) = none := fun _ _ => rfl
    simp only [Generated.moduleDeclarations, List.filterMap_append, List.filterMap_map, Function.comp_def]
    rw [List.filterMap_congr htool, List.filterMap_congr hclass]
    simp [toolFunction?]
  simp only [load, hrecords, htools, Roster.values_ofList_of_nodup _ hclasses, Roster.values_ofList_of_nodup _ hfunctions]

end StubSet
namespace Generated

variable {ds : List Declaration} {g : Generated}

theorem hasBase_of_generate (h : generate ds = .ok g) : ∀ c ∈ g.records.values, c.hasBase Vocabulary.recordBase := by
  intro c hc
  obtain ⟨ss, -, -, hrecords⟩ := generate_forwards h
  rw [hrecords] at hc
  obtain ⟨d, -, hd⟩ := List.mem_filterMap.1 (mem_of_findRev? (Roster.findRev?_of_mem_values Class.name hc)).1
  unfold StubSet.recordClass? at hd
  split at hd
  · split at hd
    · cases hd
      assumption
    · cases hd
  · cases hd

/-- The names of what is generated are distinct. -/
theorem nodup_of_generate (h : generate ds = .ok g) :
    (g.records.values.map (·.name)).Nodup ∧ (g.functions.values.map (·.name)).Nodup := by
  obtain ⟨ss, -, hss, hrecords⟩ := generate_forwards h
  have hnames := map_eq_map_of_forall₂ (f := (·.name)) (g := (·.name)) (fun hs => hs.name.symm) hss
  exact ⟨hrecords ▸ Roster.nodup_map_values_ofList _ _, hnames ▸ Roster.nodup_map_values_ofList _ _⟩

theorem forwards_of_forall₂ {fs : List Function} {ss : List Stub} (h : List.Forall₂ ForwardsTo fs ss) :
    ∀ f ∈ fs, f.Forwards := fun f hf => by
  obtain ⟨s, -, hs⟩ := exists_of_forall₂_right h.flip hf
  exact ForwardsTo.forwards hs

/-- So have the stubs of a module those of its functions. -/
theorem consistsOf_of_stubs {P : Expr → Prop} (hP : ∀ type description, P (Vocabulary.describedType type description) → P type)
    (h : generate ds = .ok g) (hg : ∀ f ∈ g.functions.values, f.ConsistsOf P) {set : StubSet} (hset : g.stubs = .ok set) :
    ∀ s ∈ set.stubs, s.ConsistsOf P := by
  obtain ⟨ss, -, hss, -⟩ := generate_forwards h
  obtain rfl : ⟨g.records.values.map Record.ofClass, _⟩ = set := Except.ok.inj ((stubs_of_forwards hss).symm.trans hset)
  intro s hs
  obtain ⟨f, hf, hforwards⟩ := exists_of_forall₂_right hss hs
  exact hforwards.consistsOf hP (hg f hf)

/-- **The text of a legible module is loaded** unless one of its types is none, and then as the stubs that its
functions forward to, with their types as they are read. -/
theorem load_of_forwards {ss : List Stub} (hlegible : g.Legible) (hss : List.Forall₂ ForwardsTo g.functions.values ss)
    (hbases : ∀ c ∈ g.records.values, c.hasBase Vocabulary.recordBase) (hclasses : (g.records.values.map (·.name)).Nodup)
    (hfunctions : (g.functions.values.map (·.name)).Nodup) : (Source.parse? g.chars).map StubSet.load =
      (StubSet.typed ⟨g.records.values.map Record.ofClass, ss⟩).map .ok := by
  have hread := parse?_chars hlegible (forwards_of_forall₂ hss)
  have hload : (Source.parse? g.chars).map StubSet.load =
      ((Source.parse? g.chars).map (List.map Declaration.unplaced)).map StubSet.load := by
    simp [Function.comp_def, StubSet.load_unplaced]
  have hrel := mapM_rel (fun _ _ hs => ForwardsTo.typed hs) hss
  rw [hload, hread, StubSet.typed]
  cases hfs : g.functions.values.mapM Function.typed with
  | none =>
    rw [hfs] at hrel
    generalize ss.mapM Stub.typed = read at *
    cases hrel
    rfl
  | some fs =>
    have hnames := map_eq_of_mapM Function.name_typed hfs
    rw [hfs] at hrel
    generalize ss.mapM Stub.typed = read at *
    cases hrel with
    | @some _ read hread =>
      have hstubs := stubsOf_eq_ok_iff.2 (hread.imp fun _ _ hs => hs.ofFunction)
      have hset := StubSet.load_moduleDeclarations hbases (forwards_of_forall₂ hread) hclasses (hnames ▸ hfunctions)
      simp only [Option.map_some, StubSet.load_unplaced, hset, StubSet.ofDefinitions, hstubs]
      rfl

end Generated
end PluginTools
