/-
Generation keeps signatures. The stub set of whatever is generated has one stub for each name under which
the plugin exposes a function, at the place where the name first came and with the signature of the last
function of that name; records likewise. `generate_presents` says so, and that nothing else counts.

The way there: each generated function passes the loader's check, since the check undoes what generation
did to the parameters (`Offers`); and the collection by name is the same before and after the check.
-/
import PluginTools.Proofs.Arrivals
import PluginTools.Stub.StubSet

namespace PluginTools

theorem Except.bind_eq_ok_iff {x : Except ε α} {f : α → Except ε β} {b : β} :
    x >>= f = .ok b ↔ ∃ a, x = .ok a ∧ f a = .ok b := by
  cases x <;> simp [bind, Except.bind]

/-- The error of a computation that fails. -/
def errorOf? : Except ε α → Option ε
  | .error e => some e
  | .ok _ => none

@[simp] theorem errorOf?_error (e : ε) : errorOf? (.error e : Except ε α) = some e := rfl

@[simp] theorem errorOf?_ok (a : α) : errorOf? (.ok a : Except ε α) = none := rfl

theorem errorOf?_eq_some_iff {x : Except ε α} {e : ε} : errorOf? x = some e ↔ x = .error e := by
  cases x <;> simp

theorem errorOf?_eq_none_iff {x : Except ε α} : errorOf? x = none ↔ ∃ a, x = .ok a := by
  cases x <;> simp

/-- A computation that goes on fails where it is or further on. -/
theorem errorOf?_bind (x : Except ε α) (f : α → Except ε β) :
    errorOf? (x >>= f) = match x with
      | .error e => some e
      | .ok a => errorOf? (f a) := by
  cases x <;> rfl

theorem Expr.isName_iff {e : Expr} {id : String} : e.isName id = true ↔ e = .name id := by
  cases e <;> simp [Expr.isName, Expr.name?]

theorem Expr.text?_eq_some_iff {e : Expr} {s : String} : e.text? = some s ↔ e = .text s := by
  cases e with
  | literal l => cases l <;> simp [Expr.text?, Expr.text]
  | _ => simp [Expr.text?, Expr.text]

/-! ## What a plugin exposes -/

/-- The functions that a plugin exposes, redefined ones included. -/
def exposedFunctions (ds : List Declaration) : List Function :=
  ds.filterMap fun
    | .ofFunction f => if f.isMarked Vocabulary.exposed then some f else none
    | _ => none

/-- The records of a plugin, redefined ones included. -/
def recordClasses (ds : List Declaration) : List Class := ds.filterMap StubSet.recordClass?

@[simp] theorem exposedFunctions_ofFunction (f : Function) (ds : List Declaration) :
    exposedFunctions (.ofFunction f :: ds) =
      if f.isMarked Vocabulary.exposed then f :: exposedFunctions ds else exposedFunctions ds := by
  by_cases h : f.isMarked Vocabulary.exposed <;> simp [exposedFunctions, h]

@[simp] theorem exposedFunctions_ofClass (c : Class) (ds : List Declaration) :
    exposedFunctions (.ofClass c :: ds) = exposedFunctions ds := rfl

@[simp] theorem exposedFunctions_other (ds : List Declaration) :
    exposedFunctions (.other :: ds) = exposedFunctions ds := rfl

@[simp] theorem recordClasses_ofFunction (f : Function) (ds : List Declaration) :
    recordClasses (.ofFunction f :: ds) = recordClasses ds := rfl

@[simp] theorem recordClasses_ofClass (c : Class) (ds : List Declaration) :
    recordClasses (.ofClass c :: ds) =
      if c.hasBase Vocabulary.recordBase then c :: recordClasses ds else recordClasses ds := by
  by_cases h : c.hasBase Vocabulary.recordBase <;> simp [recordClasses, StubSet.recordClass?, h]

@[simp] theorem recordClasses_other (ds : List Declaration) :
    recordClasses (.other :: ds) = recordClasses ds := rfl

/-- What callers see of a function. -/
def Function.signature (f : Function) : String × Option String × List Parameter × Option Expr :=
  (f.name, f.docstring?, f.parameters, f.returns)

/-- A parameter of a function and that of its stub: a type that is a bare name has no description, and one
with a description is taken apart. -/
inductive OffersParameter : Parameter → StubParameter → Prop
  | plain (name id : String) (default : Option Expr) :
    OffersParameter ⟨name, .positional, some (.name id), default⟩ ⟨name, .name id, none, default⟩
  | described (name : String) (type : Expr) (description : String) (default : Option Expr) :
    OffersParameter
      ⟨name, .positional, some (.subscript (.name "Annotated") (.tuple [type, .text description])), default⟩
      ⟨name, type, some description, default⟩

/-- A stub that has the signature of a function. -/
structure Offers (f : Function) (s : Stub) : Prop where
  name : s.name = f.name
  description : s.description = f.docstring?
  parameters : List.Forall₂ OffersParameter f.parameters s.parameters
  returns : s.returns = f.returns

/-- A set with one stub and one record for each name, in order of first arrival, made from the last
function and the last class of that name. -/
structure Presents (ds : List Declaration) (set : StubSet) : Prop where
  names : set.stubs.map (·.name) = ((exposedFunctions ds).map (·.name)).eraseDups
  stubs : ∀ s ∈ set.stubs, ∃ f, (exposedFunctions ds).findRev? (·.name = s.name) = some f ∧ Offers f s
  recordNames : set.records.map (·.name) = ((recordClasses ds).map (·.name)).eraseDups
  records : ∀ r ∈ set.records,
    ∃ c, (recordClasses ds).findRev? (·.name = r.name) = some c ∧ r.fields = c.fields

theorem OffersParameter.unique {p : Parameter} {q q' : StubParameter} (h : OffersParameter p q)
    (h' : OffersParameter p q') : q = q' := by
  cases h <;> cases h' <;> rfl

theorem Offers.unique {f f' : Function} {s s' : Stub} (h : Offers f s) (h' : Offers f' s')
    (same : f.signature = f'.signature) : s = s' := by
  simp only [Function.signature, Prod.mk.injEq] at same
  obtain ⟨hname, hdoc, hparams, hreturns⟩ := same
  have hps : s.parameters = s'.parameters := by
    have hq := h'.parameters
    rw [← hparams] at hq
    exact List.right_unique_forall₂' (R := OffersParameter) (fun _ _ _ => OffersParameter.unique) h.parameters hq
  cases s
  cases s'
  simp only [Stub.mk.injEq]
  exact ⟨h.name.trans (hname.trans h'.name.symm), h.description.trans (hdoc.trans h'.description.symm), hps,
    h.returns.trans (hreturns.trans h'.returns.symm)⟩

/-! ## A generated function -/

/-- A parameter of a generated function and that of its stub: a type that is a bare name has no description, and
one with a descriptor is taken apart. -/
inductive Carries : Parameter → StubParameter → Prop
  | bare (name id : String) (default : Option Expr) :
    Carries ⟨name, .positional, some (.name id), default⟩ ⟨name, .name id, none, default⟩
  | described (name : String) (type : Expr) (description : String) (default : Option Expr) :
    Carries ⟨name, .positional, some (Vocabulary.describedType type description), default⟩
      ⟨name, type, some description, default⟩

/-- A function as generation writes it: it has the mark, and its body is a docstring or none and the call that
forwards its parameters. -/
structure Function.Forwards (f : Function) : Prop where
  decorators : f.decorators = [Vocabulary.toolMark]
  body : f.body = f.docstring?.toList.map (fun s => .expression (.text s)) ++
    [.result (some (forwardCall f.name (f.parameters.map (·.name))))]

theorem parametersOf_of_carries {ps : List Parameter} {qs : List StubParameter} (h : List.Forall₂ Carries ps qs) :
    Stub.parametersOf ps = .ok qs ∧ ps.map (·.name) = qs.map (·.name) := by
  induction h with
  | nil => exact ⟨rfl, rfl⟩
  | @cons p q _ _ hpq _ ih =>
    have hp : Stub.parameterOf p = .ok q ∧ p.name = q.name := by
      cases hpq <;> exact ⟨rfl, rfl⟩
    simp only [Stub.parametersOf, Except.bind_eq_ok_iff, Except.ok.injEq]
    exact ⟨⟨q, hp.1, _, ih.1, rfl⟩, by simp [hp.2, ih.2]⟩

theorem forwards_names (qs : List StubParameter) : Stub.forwards (qs.map fun q => .name q.name) qs = true := by
  induction qs with
  | nil => rfl
  | cons q qs ih => simp only [List.map_cons, Stub.forwards, ih, Bool.and_true, Expr.isName_iff]

theorem checkCall_forwardCall (name : String) (qs : List StubParameter) :
    Stub.checkCall name qs (forwardCall name (qs.map (·.name))) = .ok () := by
  have hcallee : (Expr.name Vocabulary.forwarder).isName Vocabulary.forwarder = true := Expr.isName_iff.2 rfl
  have hmethod : (Expr.text name).text? = some name := rfl
  simp [Stub.checkCall, forwardCall, hcallee, hmethod, Function.comp_def, forwards_names]

/-- A function as generation writes it, and its stub. -/
structure ForwardsTo (f : Function) (s : Stub) : Prop where
  forwards : f.Forwards
  name : s.name = f.name
  description : s.description = f.docstring?
  parameters : List.Forall₂ Carries f.parameters s.parameters
  returns : s.returns = f.returns

/-- **The loader accepts what generation writes**, and reads the stub off it. -/
theorem ForwardsTo.ofFunction {f : Function} {s : Stub} (h : ForwardsTo f s) : Stub.ofFunction f = .ok s := by
  obtain ⟨name, description, qs, returns⟩ := s
  obtain ⟨hforwards, rfl, rfl, hqs, rfl⟩ := h
  obtain ⟨hparameters, hnames⟩ := parametersOf_of_carries hqs
  have hcall := checkCall_forwardCall f.name qs
  have hbody := hforwards.body
  rw [← hnames] at hcall
  have hcheck : Stub.checkBody f qs = .ok () := by
    unfold Stub.checkBody
    cases hd : f.docstring? with
    | none => simp [hbody, hd, hcall]
    | some text => simp [hbody, hd, hcall]
  dsimp only at hparameters
  simp [Stub.ofFunction, hparameters, hcheck]

theorem forwardType_ok {t t' : Expr} (h : forwardType t = .ok t') :
    (∃ id, t = .name id ∧ t' = .name id) ∨
      ∃ type text, t = .subscript (.name "Annotated") (.tuple [type, .text text]) ∧
        t' = Vocabulary.describedType type text := by
  unfold forwardType at h
  split at h
  · cases h; exact .inl ⟨_, rfl, rfl⟩
  · split at h
    · next hw =>
      obtain rfl := Expr.isName_iff.1 hw
      split at h
      · split at h
        · next ht =>
          obtain rfl := Expr.text?_eq_some_iff.1 ht
          cases h
          exact .inr ⟨_, _, rfl, rfl⟩
        · cases h
      · cases h
      · cases h
    · cases h
  · cases h

/-- What generation does to a parameter, the loader undoes. -/
theorem forwardParameter_ok {p p' : Parameter} (h : forwardParameter p = .ok p') :
    ∃ q, Carries p' q ∧ OffersParameter p q := by
  obtain ⟨name, kind, type, default⟩ := p
  cases kind with
  | unsupported => simp [forwardParameter] at h
  | positional =>
    cases type with
    | none => simp [forwardParameter] at h
    | some t =>
      simp only [forwardParameter, Except.bind_eq_ok_iff, Except.ok.injEq] at h
      obtain ⟨t', ht, rfl⟩ := h
      rcases forwardType_ok ht with ⟨id, rfl, rfl⟩ | ⟨type, text, rfl, rfl⟩
      · exact ⟨_, .bare name id default, .plain name id default⟩
      · exact ⟨_, .described name type text default, .described name type text default⟩

theorem forwardParameters_ok {function : String} {ps ps' : List Parameter}
    (h : forwardParameters function ps = .ok ps') :
    ∃ qs, List.Forall₂ Carries ps' qs ∧ List.Forall₂ OffersParameter ps qs := by
  induction ps generalizing ps' with
  | nil => cases h; exact ⟨[], .nil, .nil⟩
  | cons p ps ih =>
    unfold forwardParameters at h
    split at h
    · cases h
    · next p' hp =>
      simp only [Except.bind_eq_ok_iff, Except.ok.injEq] at h
      obtain ⟨rest, hrest, rfl⟩ := h
      obtain ⟨q, hq, hpq⟩ := forwardParameter_ok hp
      obtain ⟨qs, hqs, hpqs⟩ := ih hrest
      exact ⟨q :: qs, .cons hq hqs, .cons hpq hpqs⟩

/-- **A generated function offers what its original declares.** -/
theorem forwardFunction_ok {f f' : Function} (h : forwardFunction f = .ok f') :
    f'.name = f.name ∧ ∃ s, ForwardsTo f' s ∧ Offers f s := by
  simp only [forwardFunction, Except.bind_eq_ok_iff, Except.ok.injEq] at h
  obtain ⟨ps, hps, rfl⟩ := h
  obtain ⟨qs, hqs, hoffers⟩ := forwardParameters_ok hps
  refine ⟨rfl, ⟨f.name, f.docstring?, qs, f.returns⟩, ?_, rfl, rfl, hoffers, rfl⟩
  cases hd : f.docstring? <;> exact ⟨⟨rfl, rfl⟩, rfl, rfl, hqs, rfl⟩

/-! ## All declarations -/

theorem addAll_ok {g g' : Generated} {ds : List Declaration} (h : g.addAll ds = .ok g') :
    ∃ fs, List.Forall₂ (fun f f' => forwardFunction f = .ok f') (exposedFunctions ds) fs ∧
      g'.functions = fs.foldl (fun r f => r.insert f.name f) g.functions ∧
      g'.records = (recordClasses ds).foldl (fun r c => r.insert c.name c) g.records := by
  induction ds generalizing g with
  | nil => cases h; exact ⟨[], .nil, rfl, rfl⟩
  | cons d ds ih =>
    simp only [Generated.addAll, Except.bind_eq_ok_iff] at h
    obtain ⟨g₁, hadd, hrest⟩ := h
    obtain ⟨fs, hfs, hfunctions, hrecords⟩ := ih hrest
    cases d with
    | ofFunction f =>
      by_cases hmark : f.isMarked Vocabulary.exposed
      · simp only [Generated.add, hmark, ↓reduceIte, Except.bind_eq_ok_iff, Except.ok.injEq] at hadd
        obtain ⟨f', hf, rfl⟩ := hadd
        simp only [exposedFunctions_ofFunction, hmark, ↓reduceIte]
        refine ⟨f' :: fs, .cons hf hfs, ?_, hrecords⟩
        rw [hfunctions, List.foldl_cons, (forwardFunction_ok hf).1]
      · simp only [Generated.add, hmark] at hadd
        cases hadd
        simp only [exposedFunctions_ofFunction, hmark]
        exact ⟨fs, hfs, hfunctions, hrecords⟩
    | ofClass c =>
      refine ⟨fs, hfs, ?_⟩
      by_cases hbase : c.hasBase Vocabulary.recordBase <;> simp only [Generated.add, hbase] at hadd <;>
        cases hadd <;> simp only [recordClasses_ofClass, hbase] <;> exact ⟨hfunctions, hrecords⟩
    | other =>
      cases hadd
      exact ⟨fs, hfs, hfunctions, hrecords⟩

theorem generate_ok {ds : List Declaration} {g : Generated} (h : generate ds = .ok g) :
    ∃ fs, List.Forall₂ (fun f f' => forwardFunction f = .ok f') (exposedFunctions ds) fs ∧
      g.functions = Roster.ofList fs (·.name) ∧ g.records = Roster.ofList (recordClasses ds) (·.name) :=
  addAll_ok h

theorem stubsOf_eq_ok_iff {fs : List Function} {ss : List Stub} :
    StubSet.stubsOf fs = .ok ss ↔ List.Forall₂ (fun f s => Stub.ofFunction f = .ok s) fs ss := by
  induction fs generalizing ss with
  | nil => cases ss <;> simp [StubSet.stubsOf]
  | cons f fs ih =>
    simp only [StubSet.stubsOf, Except.bind_eq_ok_iff, Except.ok.injEq]
    constructor
    · rintro ⟨s, hs, ss, hss, rfl⟩
      exact .cons hs (ih.1 hss)
    · rintro (_ | ⟨hs, hss⟩)
      exact ⟨_, hs, _, ih.2 hss, rfl⟩

theorem offers_of_forward {xs fs : List Function}
    (h : List.Forall₂ (fun f f' => forwardFunction f = .ok f') xs fs) :
    ∃ ss, List.Forall₂ Offers xs ss ∧ List.Forall₂ ForwardsTo fs ss := by
  induction h with
  | nil => exact ⟨[], .nil, .nil⟩
  | cons hf _ ih =>
    obtain ⟨ss, hoffers, hss⟩ := ih
    obtain ⟨-, s, hs, hoffer⟩ := forwardFunction_ok hf
    exact ⟨s :: ss, .cons hoffer hoffers, .cons hs hss⟩

theorem records_of_classes (ds : List Declaration) :
    List.Forall₂ (fun c r => Record.ofClass c = r) (Roster.ofList (recordClasses ds) (·.name)).values
      (Roster.ofList ((recordClasses ds).map Record.ofClass) (·.name)).values := by
  refine Roster.forall₂_values_ofList Class.name (fun hr => congrArg Record.name hr) ?_
  exact List.forall₂_map_right_iff.2 (List.forall₂_same.2 fun _ _ => rfl)

theorem Offers.unique_all {fs fs' : List Function} {ss ss' : List Stub} (h : List.Forall₂ Offers fs ss)
    (h' : List.Forall₂ Offers fs' ss') (same : fs.map Function.signature = fs'.map Function.signature) :
    ss = ss' := by
  induction h generalizing fs' ss' with
  | nil =>
    obtain rfl := List.map_eq_nil_iff.1 same.symm
    cases h'
    rfl
  | cons ho _ ih =>
    cases h' with
    | nil => simp at same
    | cons ho' hos' =>
      simp only [List.map_cons, List.cons.injEq] at same
      rw [ho.unique ho' same.1, ih hos' same.2]

/-- What is generated: a function for each name among the exposed ones, and the records. -/
theorem generate_forwards {ds : List Declaration} {g : Generated} (h : generate ds = .ok g) :
    ∃ ss, List.Forall₂ Offers (exposedFunctions ds) ss ∧
      List.Forall₂ ForwardsTo g.functions.values (Roster.ofList ss (·.name)).values ∧
      g.records = Roster.ofList (recordClasses ds) (·.name) := by
  obtain ⟨fs, hfs, hfunctions, hrecords⟩ := generate_ok h
  obtain ⟨ss, hoffers, hss⟩ := offers_of_forward hfs
  exact ⟨ss, hoffers, hfunctions ▸ Roster.forall₂_values_ofList (·.name) (fun hr => hr.name.symm) hss, hrecords⟩

theorem stubs_of_forwards {g : Generated} {ss : List Stub} (h : List.Forall₂ ForwardsTo g.functions.values ss) :
    g.stubs = .ok ⟨g.records.values.map Record.ofClass, ss⟩ := by
  have hstubs : StubSet.stubsOf g.functions.values = .ok ss :=
    stubsOf_eq_ok_iff.2 (h.imp fun _ _ hs => hs.ofFunction)
  rw [Generated.stubs, StubSet.ofDefinitions, hstubs]
  rfl

/-- The set of what is generated: the stubs of the exposed functions and the records, each collected by
name. -/
theorem stubs_ok {ds : List Declaration} {g : Generated} (h : generate ds = .ok g) :
    ∃ ss, List.Forall₂ Offers (exposedFunctions ds) ss ∧
      g.stubs = .ok ⟨(Roster.ofList ((recordClasses ds).map Record.ofClass) (·.name)).values,
        (Roster.ofList ss (·.name)).values⟩ := by
  obtain ⟨ss, hoffers, hss, hrecords⟩ := generate_forwards h
  have hvalues := map_eq_map_of_forall₂ (f := Record.ofClass) (g := id) (fun hr => hr) (records_of_classes ds)
  exact ⟨ss, hoffers, by rw [stubs_of_forwards hss, hrecords, hvalues, List.map_id]⟩

/-- **Generation preserves signatures, and what it generates is always a set of stubs.** For any
declarations, with any redefinitions, the set has what `Presents` says; and any other declarations that
expose functions of the same signatures and have records of the same fields yield the same set. -/
theorem generate_presents {ds : List Declaration} {g : Generated} (h : generate ds = .ok g) :
    ∃ set, g.stubs = .ok set ∧ Presents ds set ∧
      ∀ ds' g', generate ds' = .ok g' →
        (exposedFunctions ds').map Function.signature = (exposedFunctions ds).map Function.signature →
        (recordClasses ds').map Record.ofClass = (recordClasses ds).map Record.ofClass →
        g'.stubs = .ok set := by
  obtain ⟨ss, hoffers, hstubs⟩ := stubs_ok h
  have hnames := map_eq_map_of_forall₂ (f := Function.name) (g := Stub.name) (fun ho => ho.name.symm) hoffers
  refine ⟨_, hstubs, ⟨?_, ?_, ?_, ?_⟩, ?_⟩
  · rw [Roster.map_values_ofList, hnames]
  · intro s hs
    have hvalues := Roster.forall₂_values_ofList Function.name (fun ho => ho.name.symm) hoffers
    obtain ⟨f, hf, ho⟩ := exists_of_forall₂_right hvalues hs
    refine ⟨f, ?_, ho⟩
    rw [ho.name]
    exact Roster.findRev?_of_mem_values Function.name hf
  · rw [Roster.map_values_ofList, List.map_map]
    rfl
  · intro r hr
    obtain ⟨c, hc, rfl⟩ := exists_of_forall₂_right (records_of_classes ds) hr
    exact ⟨c, Roster.findRev?_of_mem_values Class.name hc, rfl⟩
  · intro ds' g' h' hfunctions hrecords
    obtain ⟨ss', hoffers', hstubs'⟩ := stubs_ok h'
    rw [hstubs', Offers.unique_all hoffers' hoffers hfunctions, hrecords]

/-- A plugin with a function exposed twice, one that is not exposed, and a record. -/
def samplePlugin : List Declaration := [
  .ofFunction ⟨"rename", [.name "jsonrpc"], [], none, [.result none], 1⟩,
  .ofClass ⟨"Segment", [.name "TypedDict"], [("start", .name "str")], "class Segment(TypedDict):\n    start: str", 4⟩,
  .ofFunction ⟨"helper", [], [⟨"*", .unsupported, none, none⟩], none, [], 6⟩,
  .other,
  .ofFunction ⟨"rename", [.name "unsafe", .name "jsonrpc"],
    [⟨"old", .positional, some (.name "str"), none⟩,
      ⟨"new", .positional, some (.subscript (.name "Annotated") (.tuple [.name "str", .text "New name"])),
        some (.text "sub")⟩],
    some (.name "Segment"), [.expression (.text "Rename a segment"), .result (some (.name "None"))], 8⟩]

theorem generate_presents_samplePlugin : ∃ g, generate samplePlugin = .ok g ∧
    ∃ set, g.stubs = .ok set ∧ Presents samplePlugin set ∧
      ∀ ds' g', generate ds' = .ok g' →
        (exposedFunctions ds').map Function.signature = (exposedFunctions samplePlugin).map Function.signature →
        (recordClasses ds').map Record.ofClass = (recordClasses samplePlugin).map Record.ofClass →
        g'.stubs = .ok set :=
  ⟨_, rfl, generate_presents rfl⟩

end PluginTools
