/-
What the loader refuses. Of each name it takes the last function that bears the mark of a tool, and it accepts the
module exactly if each of these does nothing but hand its own parameters to the plugin under its own name. So
`load_accepts` says that a module that was changed by hand cannot make a stub call another method, or call its own
with the arguments in another order or number.

Each check is turned into what it is passed by (`checkCall_eq_ok_iff`, `checkBody_eq_ok_iff`), and a function passes
them all exactly if it is a forwarder (`exists_ofFunction_iff`).
-/
import PluginTools.Proofs.Generation
import PluginTools.Proofs.Sameness

namespace PluginTools

/-! ## Forwarders -/

/-- A function that does nothing but forward: its parameters have types, and behind a leading string, if there is
one, it returns the call that passes them on in order under its own name. -/
structure Function.IsForwarder (f : Function) : Prop where
  parameters : ∀ p ∈ f.parameters, p.kind = .positional ∧ ∃ type, p.type = some type
  body : ∃ opening : Option String, f.body = opening.toList.map (fun s => .expression (.literal (.text s))) ++
    [.result (some (.call (.name "make_jsonrpc_request")
      (.literal (.text f.name) :: f.parameters.map fun p => .name p.name) []))]

/-- How a type stands in a signature: a type with a descriptor is taken apart, and of its keywords the first
that is called "description" counts, if it is a string; any other type has no description. -/
inductive ShowsType : Expr → Expr → Option String → Prop
  | described (type : Expr) (arguments : List Expr) (keywords : List (String × Expr)) :
    ShowsType (.subscript (.name "Annotated") (.tuple [type, .call (.name "Field") arguments keywords])) type
      ((keywords.find? (·.1 = "description")).bind (·.2.text?))
  | bare {type : Expr} : (∀ t arguments keywords,
      type ≠ .subscript (.name "Annotated") (.tuple [t, .call (.name "Field") arguments keywords])) →
    ShowsType type type none

/-- A parameter as it stands in the signature of a stub. -/
structure ShowsParameter (p : Parameter) (q : StubParameter) : Prop where
  name : q.name = p.name
  default : q.default = p.default
  type : ∃ type, p.type = some type ∧ ShowsType type q.type q.description

/-- A stub that has the signature of its function. -/
structure ShowsSignature (f : Function) (s : Stub) : Prop where
  name : s.name = f.name
  description : s.description = f.docstring?
  parameters : List.Forall₂ ShowsParameter f.parameters s.parameters
  returns : s.returns = f.returns

/-! ## Parameters -/

theorem keywordText?_eq (keyword : String) (ks : List (String × Expr)) :
    Stub.keywordText? keyword ks = (ks.find? (·.1 = keyword)).bind (·.2.text?) := by
  induction ks with
  | nil => rfl
  | cons k ks ih =>
    obtain ⟨k, e⟩ := k
    by_cases h : k = keyword
    · simp [Stub.keywordText?, h]
    · simp [Stub.keywordText?, h, ih]

theorem showsType_splitType (type : Expr) : ShowsType type (Stub.splitType type).1 (Stub.splitType type).2 := by
  unfold Stub.splitType
  split
  · next wrapper type function arguments keywords =>
    split
    · next h =>
      simp only [Bool.and_eq_true, Expr.isName_iff] at h
      obtain ⟨rfl, rfl⟩ := h
      rw [keywordText?_eq]
      exact .described type arguments keywords
    · next h =>
      refine .bare fun t arguments' keywords' he => h ?_
      simp only [Expr.subscript.injEq, Expr.tuple.injEq, List.cons.injEq, Expr.call.injEq] at he
      obtain ⟨rfl, -, ⟨rfl, -, -⟩, -⟩ := he
      simp [Expr.isName_iff, Vocabulary.described, Vocabulary.descriptor]
  · next hother => exact .bare fun t arguments keywords he => hother _ _ _ _ _ he

theorem parameterOf_eq_ok_iff {p : Parameter} {q : StubParameter} :
    Stub.parameterOf p = .ok q ↔ p.kind = .positional ∧ ∃ type, p.type = some type ∧
      q = ⟨p.name, (Stub.splitType type).1, (Stub.splitType type).2, p.default⟩ := by
  obtain ⟨name, kind, type, default⟩ := p
  cases kind with
  | unsupported => simp [Stub.parameterOf]
  | positional =>
    cases type with
    | none => simp [Stub.parameterOf]
    | some type => simp [Stub.parameterOf, eq_comm]

theorem parametersOf_eq_ok_iff {ps : List Parameter} {qs : List StubParameter} :
    Stub.parametersOf ps = .ok qs ↔ List.Forall₂ (fun p q => Stub.parameterOf p = .ok q) ps qs := by
  induction ps generalizing qs with
  | nil => cases qs <;> simp [Stub.parametersOf]
  | cons p ps ih =>
    simp only [Stub.parametersOf, Except.bind_eq_ok_iff, Except.ok.injEq]
    constructor
    · rintro ⟨q, hq, qs, hqs, rfl⟩
      exact .cons hq (ih.1 hqs)
    · rintro (_ | ⟨hq, hqs⟩)
      exact ⟨_, hq, _, ih.2 hqs, rfl⟩

/-- A parameter that is read off keeps its name and default, and its type is shown. -/
theorem showsParameter_of_parameterOf {p : Parameter} {q : StubParameter} (h : Stub.parameterOf p = .ok q) :
    ShowsParameter p q := by
  obtain ⟨-, type, htype, rfl⟩ := parameterOf_eq_ok_iff.1 h
  exact ⟨rfl, rfl, type, htype, showsType_splitType type⟩

theorem exists_parametersOf_iff {ps : List Parameter} : (∃ qs, Stub.parametersOf ps = .ok qs) ↔
    ∀ p ∈ ps, p.kind = .positional ∧ ∃ type, p.type = some type := by
  induction ps with
  | nil => simp [Stub.parametersOf]
  | cons p ps ih =>
    have hp : (∃ q, Stub.parameterOf p = .ok q) ↔ p.kind = .positional ∧ ∃ type, p.type = some type := by
      simp [parameterOf_eq_ok_iff]
    rw [List.forall_mem_cons, ← ih, ← hp]
    simp only [Stub.parametersOf, Except.bind_eq_ok_iff, Except.ok.injEq]
    constructor
    · rintro ⟨_, q, hq, qs, hqs, -⟩
      exact ⟨⟨q, hq⟩, qs, hqs⟩
    · rintro ⟨⟨q, hq⟩, qs, hqs⟩
      exact ⟨_, q, hq, qs, hqs, rfl⟩

theorem map_name_of_parametersOf {ps : List Parameter} {qs : List StubParameter}
    (h : Stub.parametersOf ps = .ok qs) : qs.map (·.name) = ps.map (·.name) :=
  (map_eq_map_of_forall₂ (f := Parameter.name) (g := StubParameter.name)
    (fun hq => (showsParameter_of_parameterOf hq).name.symm) (parametersOf_eq_ok_iff.1 h)).symm

/-! ## Bodies -/

theorem forwards_iff {es : List Expr} {qs : List StubParameter} :
    Stub.forwards es qs = true ↔ es = qs.map fun q => .name q.name := by
  induction es generalizing qs with
  | nil => cases qs <;> simp [Stub.forwards]
  | cons e es ih => cases qs <;> simp [Stub.forwards, Expr.isName_iff, ih]

/-- The check of a call is passed by the one that passes the parameters on, and by no other. -/
theorem checkCall_eq_ok_iff {name : String} {qs : List StubParameter} {e : Expr} :
    Stub.checkCall name qs e = .ok () ↔ e = forwardCall name (qs.map (·.name)) := by
  constructor
  · intro h
    unfold Stub.checkCall at h
    split at h
    · next callee arguments keywords =>
      split at h
      · cases h
      · next hcallee =>
        split at h
        · cases h
        · next method rest =>
          split at h
          · cases h
          · next hmethod =>
            split at h
            · next hrest =>
              simp only [Bool.or_eq_true, Bool.not_eq_true', not_or, Bool.not_eq_false, List.isEmpty_iff,
                Expr.isName_iff] at hcallee
              obtain ⟨rfl, rfl⟩ := hcallee
              obtain rfl := Expr.text?_eq_some_iff.1 (by simpa using hmethod)
              obtain rfl := forwards_iff.1 hrest
              simp [forwardCall]
            · cases h
    · cases h
  · rintro rfl
    exact checkCall_forwardCall name qs

theorem docstring?_eq_some_iff {f : Function} {s : String} :
    f.docstring? = some s ↔ ∃ rest, f.body = .expression (.text s) :: rest := by
  unfold Function.docstring?
  split
  · next e rest hbody => simp [hbody, Expr.text?_eq_some_iff]
  · next hbody =>
    simp only [reduceCtorEq, false_iff, not_exists]
    exact fun rest he => hbody _ _ he

/-- The check of a body is passed by the call behind a leading string or none, and by no other. -/
theorem checkBody_eq_ok_iff {f : Function} {qs : List StubParameter} : Stub.checkBody f qs = .ok () ↔
    ∃ opening : Option String, f.body = opening.toList.map (fun s => .expression (.text s)) ++
      [.result (some (forwardCall f.name (qs.map (·.name))))] := by
  unfold Stub.checkBody
  constructor
  · intro h
    split at h
    · next call hrest =>
      obtain rfl := checkCall_eq_ok_iff.1 h
      cases hdoc : f.docstring? with
      | none => exact ⟨none, by simpa [hdoc] using hrest⟩
      | some s =>
        obtain ⟨rest, hbody⟩ := docstring?_eq_some_iff.1 hdoc
        refine ⟨some s, ?_⟩
        rw [hdoc, Option.isSome_some, if_pos rfl, hbody, List.tail_cons] at hrest
        rw [hbody, hrest]
        rfl
    · cases h
  · rintro ⟨opening, hbody⟩
    have hrest : (if f.docstring?.isSome then f.body.tail else f.body) =
        [.result (some (forwardCall f.name (qs.map (·.name))))] := by
      cases opening with
      | none => simp [Function.docstring?, hbody]
      | some s => simp [docstring?_eq_some_iff.2 ⟨_, hbody⟩, hbody]
    rw [hrest]
    exact checkCall_forwardCall f.name qs

/-! ## Functions -/

theorem ofFunction_eq_ok_iff {f : Function} {s : Stub} : Stub.ofFunction f = .ok s ↔
    ∃ qs, Stub.parametersOf f.parameters = .ok qs ∧ Stub.checkBody f qs = .ok () ∧
      s = ⟨f.name, f.docstring?, qs, f.returns⟩ := by
  unfold Stub.ofFunction
  cases Stub.parametersOf f.parameters with
  | error reason => simp
  | ok qs => cases hbody : Stub.checkBody f qs <;> simp [hbody, eq_comm]

/-- **A function has a stub exactly if it is a forwarder.** -/
theorem exists_ofFunction_iff {f : Function} : (∃ s, Stub.ofFunction f = .ok s) ↔ f.IsForwarder := by
  have hcall : ∀ qs, Stub.parametersOf f.parameters = .ok qs →
      forwardCall f.name (qs.map (·.name)) = .call (.name "make_jsonrpc_request")
        (.literal (.text f.name) :: f.parameters.map fun p => .name p.name) [] := fun qs hqs => by
    rw [map_name_of_parametersOf hqs, forwardCall, List.map_map]
    rfl
  simp only [ofFunction_eq_ok_iff]
  constructor
  · rintro ⟨s, qs, hqs, hbody, -⟩
    obtain ⟨opening, hbody⟩ := checkBody_eq_ok_iff.1 hbody
    exact ⟨exists_parametersOf_iff.1 ⟨qs, hqs⟩, opening, hcall qs hqs ▸ hbody⟩
  · rintro ⟨hparameters, opening, hbody⟩
    obtain ⟨qs, hqs⟩ := exists_parametersOf_iff.2 hparameters
    exact ⟨_, qs, hqs, checkBody_eq_ok_iff.2 ⟨opening, (hcall qs hqs).symm ▸ hbody⟩, rfl⟩

theorem showsSignature_of_ofFunction {f : Function} {s : Stub} (h : Stub.ofFunction f = .ok s) :
    ShowsSignature f s := by
  obtain ⟨qs, hqs, -, rfl⟩ := ofFunction_eq_ok_iff.1 h
  exact ⟨rfl, rfl, (parametersOf_eq_ok_iff.1 hqs).imp fun _ _ hq => showsParameter_of_parameterOf hq, rfl⟩

/-- A refusal names the function that is refused. -/
theorem function_of_refusal {f : Function} {r : Refusal} (h : Stub.ofFunction f = .error r) : r.function = f.name := by
  unfold Stub.ofFunction at h
  split at h
  · cases h
    rfl
  · split at h
    · cases h
      rfl
    · cases h

/-! ## Modules -/

/-- The functions of a module that bear the mark of a tool, redefined ones included. -/
def toolFunctions (ds : List Declaration) : List Function := ds.filterMap StubSet.toolFunction?

/-- Of each name the last function, in the order in which the names first come. -/
def lastOfEachName (fs : List Function) : List Function :=
  (fs.map (·.name)).eraseDups.filterMap fun n => fs.findRev? (·.name = n)

theorem mem_toolFunctions_iff {f : Function} {ds : List Declaration} : f ∈ toolFunctions ds ↔
    .ofFunction f ∈ ds ∧ .call (.attribute (.name "mcp") "tool") [] [] ∈ f.decorators := by
  have hmark : f.decorators.any (·.same Vocabulary.toolMark) = true ↔ Vocabulary.toolMark ∈ f.decorators := by
    have hsame : ∀ e : Expr, e.same Vocabulary.toolMark ↔ e = Vocabulary.toolMark := fun e =>
      Expr.same_iff_eq_of_floats_eq_nil rfl
    simp [List.any_eq_true, hsame]
  rw [← Vocabulary.toolMark, ← hmark, toolFunctions, List.mem_filterMap]
  constructor
  · rintro ⟨d, hd, hf⟩
    unfold StubSet.toolFunction? at hf
    split at hf
    · split at hf
      · cases hf
        exact ⟨hd, ‹_›⟩
      · cases hf
    · cases hf
  · rintro ⟨hd, hf⟩
    exact ⟨_, hd, by simp [StubSet.toolFunction?, hf]⟩

theorem mem_lastOfEachName_iff {f : Function} {fs : List Function} :
    f ∈ lastOfEachName fs ↔ ∃ n, fs.findRev? (·.name = n) = some f := by
  simp only [lastOfEachName, List.mem_filterMap, List.mem_eraseDups]
  constructor
  · rintro ⟨n, -, hf⟩
    exact ⟨n, hf⟩
  · rintro ⟨n, hf⟩
    obtain ⟨hmem, hname⟩ := mem_of_findRev? hf
    exact ⟨n, of_decide_eq_true hname ▸ List.mem_map_of_mem hmem, hf⟩

theorem errorOf?_stubsOf (fs : List Function) :
    errorOf? (StubSet.stubsOf fs) = fs.findSome? fun f => errorOf? (Stub.ofFunction f) := by
  induction fs with
  | nil => rfl
  | cons f fs ih =>
    rw [StubSet.stubsOf, List.findSome?_cons, errorOf?_bind]
    cases Stub.ofFunction f with
    | error r => rfl
    | ok s =>
      simp only [errorOf?_ok, ← ih]
      cases StubSet.stubsOf fs <;> rfl

/-- The stubs that are loaded are those of the last functions of each name. -/
theorem load_eq (ds : List Declaration) : StubSet.load ds =
    StubSet.stubsOf (lastOfEachName (toolFunctions ds)) >>= fun ss =>
      .ok ⟨(Roster.ofList (recordClasses ds) (·.name)).values.map Record.ofClass, ss⟩ := by
  rw [lastOfEachName, ← Roster.values_ofList]
  rfl

theorem errorOf?_load (ds : List Declaration) : errorOf? (StubSet.load ds) =
    (lastOfEachName (toolFunctions ds)).findSome? fun f => errorOf? (Stub.ofFunction f) := by
  rw [load_eq, ← errorOf?_stubsOf]
  cases StubSet.stubsOf (lastOfEachName (toolFunctions ds)) <;> rfl

/-- What the loader makes of a module. -/
structure Accepts (ds : List Declaration) : Prop where
  /-- The functions that count are those with the mark. -/
  marked : ∀ f, f ∈ toolFunctions ds ↔
    .ofFunction f ∈ ds ∧ .call (.attribute (.name "mcp") "tool") [] [] ∈ f.decorators
  /-- The module is loaded exactly if the last of them of each name is a forwarder. -/
  succeeds_iff : (∃ set, StubSet.load ds = .ok set) ↔
    ∀ n f, (toolFunctions ds).findRev? (·.name = n) = some f → f.IsForwarder
  /-- The stubs are these functions in the order in which their names first come, each with its signature. -/
  stubs : ∀ set, StubSet.load ds = .ok set →
    List.Forall₂ ShowsSignature (lastOfEachName (toolFunctions ds)) set.stubs
  /-- So a stub comes from a function that calls the plugin under the name of the stub, with its parameters. -/
  forwards : ∀ set, StubSet.load ds = .ok set → ∀ s ∈ set.stubs, ∃ f, .ofFunction f ∈ ds ∧ f.name = s.name ∧
    f.body.getLast? = some (.result (some (.call (.name "make_jsonrpc_request")
      (.literal (.text s.name) :: s.parameters.map fun p => .name p.name) [])))
  /-- A refusal names the first of the functions, in that order, that is no forwarder. -/
  refused : ∀ r, StubSet.load ds = .error r → ∃ before f after,
    lastOfEachName (toolFunctions ds) = before ++ f :: after ∧ (∀ g ∈ before, g.IsForwarder) ∧ ¬f.IsForwarder ∧
      r.function = f.name

/-- **The loader accepts exactly forwarders**, in any module and with any redefinitions. -/
theorem load_accepts (ds : List Declaration) : Accepts ds := by
  have hstubs : ∀ set, StubSet.load ds = .ok set →
      List.Forall₂ (fun f s => Stub.ofFunction f = .ok s) (lastOfEachName (toolFunctions ds)) set.stubs := by
    intro set h
    rw [load_eq] at h
    obtain ⟨ss, hss, hset⟩ := Except.bind_eq_ok_iff.1 h
    obtain rfl := Except.ok.inj hset
    exact stubsOf_eq_ok_iff.1 hss
  refine ⟨fun f => mem_toolFunctions_iff, ?_, fun set h => ?_, fun set h s hs => ?_, fun r h => ?_⟩
  · rw [← errorOf?_eq_none_iff, errorOf?_load, List.findSome?_eq_none_iff]
    simp only [mem_lastOfEachName_iff, errorOf?_eq_none_iff, exists_ofFunction_iff, forall_exists_index]
    exact forall_comm
  · exact (hstubs set h).imp fun _ _ hs => showsSignature_of_ofFunction hs
  · obtain ⟨f, hf, hfs⟩ := exists_of_forall₂_right (hstubs set h) hs
    obtain ⟨n, hfound⟩ := mem_lastOfEachName_iff.1 hf
    have hshows := showsSignature_of_ofFunction hfs
    have hnames := map_eq_map_of_forall₂ (f := Parameter.name) (g := StubParameter.name)
      (fun hp => hp.name.symm) hshows.parameters
    obtain ⟨opening, hbody⟩ := (exists_ofFunction_iff.1 ⟨s, hfs⟩).body
    refine ⟨f, (mem_toolFunctions_iff.1 (mem_of_findRev? hfound).1).1, hshows.name.symm, ?_⟩
    have harguments : (s.parameters.map fun p => Expr.name p.name) = f.parameters.map fun p => .name p.name := by
      simpa only [List.map_map, Function.comp_def] using congrArg (List.map Expr.name) hnames.symm
    rw [hbody, List.getLast?_append, hshows.name, harguments]
    rfl
  · rw [← errorOf?_eq_some_iff, errorOf?_load, List.findSome?_eq_some_iff] at h
    obtain ⟨before, f, after, hds, hf, hbefore⟩ := h
    have hrefused := errorOf?_eq_some_iff.1 hf
    refine ⟨before, f, after, hds, fun g hg => ?_, fun hforwarder => ?_, function_of_refusal hrefused⟩
    · exact exists_ofFunction_iff.1 (errorOf?_eq_none_iff.1 (hbefore g hg))
    · obtain ⟨s, hs⟩ := exists_ofFunction_iff.2 hforwarder
      cases hs.symm.trans hrefused

end PluginTools
