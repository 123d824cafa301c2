/-
What generation objects to. It fails exactly if an exposed function has a parameter that cannot be forwarded, also
if a later function of the same name would have replaced that function; and the objection is to the first such
parameter of the first such function. `generate_objects` says so for any declarations.

What can be wrong with a parameter is said by `Offends`, without the function that forwards it: the kinds come in
the order in which they are looked for, and each excludes those before it.
-/
import PluginTools.Proofs.Generation

namespace PluginTools

/-! ## Offences -/

/-- A subscript that is no type with a description, and what is first amiss: the wrapper, then that two items stand
in the brackets, then that the second is a string. -/
inductive Malformed : Expr → Expr → Malformation → Prop
  | wrapper {wrapper slice : Expr} : wrapper ≠ .name "Annotated" → Malformed wrapper slice (.wrapper wrapper.write)
  | slice {slice : Expr} : (∀ items, slice ≠ .tuple items) →
    Malformed (.name "Annotated") slice (.slice slice.shape)
  | count {items : List Expr} : items.length ≠ 2 →
    Malformed (.name "Annotated") (.tuple items) (.count items.length)
  | description {type description : Expr} : (∀ text, description ≠ .literal (.text text)) →
    Malformed (.name "Annotated") (.tuple [type, description]) (.description description.shape)

/-- What is wrong with a parameter that cannot be forwarded. -/
inductive Parameter.Offends (p : Parameter) : Offence → Prop
  | unsupported : p.kind = .unsupported → Offends p .unsupported
  | untyped : p.kind = .positional → p.type = none → Offends p .untyped
  | malformed {wrapper slice : Expr} {reason : Malformation} : p.kind = .positional →
    p.type = some (.subscript wrapper slice) → Malformed wrapper slice reason → Offends p (.malformed reason)
  | unexpected {type : Expr} : p.kind = .positional → p.type = some type → (∀ id, type ≠ .name id) →
    (∀ wrapper slice, type ≠ .subscript wrapper slice) → Offends p (.unexpected type.shape)

/-- A subscript is malformed exactly if it is no type with a description. -/
theorem exists_malformed_iff {wrapper slice : Expr} : (∃ reason, Malformed wrapper slice reason) ↔
    ∀ type text, Expr.subscript wrapper slice ≠ .subscript (.name "Annotated") (.tuple [type, .literal (.text text)]) := by
  constructor
  · rintro ⟨reason, h⟩ type text he
    obtain ⟨rfl, rfl⟩ := Expr.subscript.inj he
    cases h with
    | wrapper h => exact h rfl
    | slice h => exact h _ rfl
    | count h => exact h rfl
    | description h => exact h text rfl
  · intro h
    by_cases hwrapper : wrapper = .name "Annotated"
    · subst hwrapper
      by_cases hslice : ∃ items, slice = .tuple items
      · obtain ⟨items, rfl⟩ := hslice
        by_cases hcount : items.length = 2
        · obtain ⟨type, description, rfl⟩ := List.length_eq_two.1 hcount
          refine ⟨_, .description fun text he => h type text ?_⟩
          rw [he]
        · exact ⟨_, .count hcount⟩
      · exact ⟨_, .slice fun items he => hslice ⟨items, he⟩⟩
    · exact ⟨_, .wrapper hwrapper⟩

/-- A parameter that can be forwarded: its type is a bare name, or a type with a description. -/
def Parameter.Forwardable (p : Parameter) : Prop :=
  p.kind = .positional ∧ ((∃ id, p.type = some (.name id)) ∨
    ∃ type text, p.type = some (.subscript (.name "Annotated") (.tuple [type, .literal (.text text)])))

theorem Parameter.not_offends_iff {p : Parameter} : (∀ offence, ¬p.Offends offence) ↔ p.Forwardable := by
  constructor
  · intro h
    obtain ⟨name, kind, type, default⟩ := p
    cases kind with
    | unsupported => exact absurd (.unsupported rfl) (h _)
    | positional =>
      refine ⟨rfl, ?_⟩
      cases type with
      | none => exact absurd (.untyped rfl rfl) (h _)
      | some type =>
        cases type with
        | name id => exact .inl ⟨id, rfl⟩
        | subscript wrapper slice =>
          have hdescribed : ¬∃ reason, Malformed wrapper slice reason := fun ⟨reason, hmalformed⟩ =>
            h _ (.malformed rfl rfl hmalformed)
          simp only [exists_malformed_iff, ne_eq, not_forall, not_not] at hdescribed
          obtain ⟨type, text, he⟩ := hdescribed
          exact .inr ⟨type, text, by rw [he]⟩
        | _ => exact absurd (.unexpected rfl rfl (fun _ he => by cases he) (fun _ _ he => by cases he)) (h _)
  · rintro ⟨hkind, htype⟩ offence (hunsupported | ⟨_, hnone⟩ | ⟨_, hsubscript, hmalformed⟩ | ⟨_, hsome, hname, hsubscript⟩)
    · rw [hkind] at hunsupported
      cases hunsupported
    · rcases htype with ⟨id, h⟩ | ⟨type, text, h⟩ <;> cases h.symm.trans hnone
    · rcases htype with ⟨id, h⟩ | ⟨type, text, h⟩
      · cases h.symm.trans hsubscript
      · exact exists_malformed_iff.1 ⟨_, hmalformed⟩ type text (Option.some.inj (hsubscript.symm.trans h))
    · rcases htype with ⟨id, h⟩ | ⟨type, text, h⟩
      · exact hname id (Option.some.inj (hsome.symm.trans h))
      · exact hsubscript _ _ (Option.some.inj (hsome.symm.trans h))

/-! ## Refused parameters -/

theorem forwardType_subscript_error_iff {wrapper slice : Expr} {offence : Offence} :
    forwardType (.subscript wrapper slice) = .error offence ↔
      ∃ reason, Malformed wrapper slice reason ∧ .malformed reason = offence := by
  constructor
  · intro h
    unfold forwardType at h
    dsimp only at h
    split at h
    · next hwrapper =>
      obtain rfl := Expr.isName_iff.1 hwrapper
      split at h
      · split at h
        · cases h
        · next hnone =>
          refine ⟨_, .description fun text he => ?_, Except.error.inj h⟩
          rw [he] at hnone
          cases hnone
      · next items hpair =>
        refine ⟨_, .count fun hcount => ?_, Except.error.inj h⟩
        obtain ⟨type, description, rfl⟩ := List.length_eq_two.1 hcount
        exact hpair type description rfl
      · next hslice => exact ⟨_, .slice fun items he => hslice items he, Except.error.inj h⟩
    · next hwrapper =>
      exact ⟨_, .wrapper fun he => hwrapper (Expr.isName_iff.2 he), Except.error.inj h⟩
  · rintro ⟨reason, hmalformed, rfl⟩
    have hdescribed : (Expr.name "Annotated").isName Vocabulary.described = true := Expr.isName_iff.2 rfl
    cases hmalformed with
    | wrapper h =>
      have hother : wrapper.isName Vocabulary.described = false :=
        Bool.eq_false_iff.2 fun he => h (Expr.isName_iff.1 he)
      simp [forwardType, hother]
    | slice h =>
      cases slice with
      | tuple items => exact absurd rfl (h items)
      | _ => simp [forwardType, hdescribed]
    | count h =>
      rename_i items
      match items, h with
      | [], _ | [_], _ | _ :: _ :: _ :: _, _ => simp [forwardType, hdescribed]
    | @description type description h =>
      have htext : description.text? = none := by
        cases hd : description.text? with
        | none => rfl
        | some text => exact absurd (Expr.text?_eq_some_iff.1 hd) (h text)
      simp [forwardType, hdescribed, htext]

/-- A parameter is refused for what is wrong with it, and for nothing else. -/
theorem forwardParameter_eq_error_iff {p : Parameter} {offence : Offence} :
    forwardParameter p = .error offence ↔ p.Offends offence := by
  obtain ⟨name, kind, type, default⟩ := p
  cases kind with
  | unsupported =>
    constructor
    · intro h
      obtain rfl : Offence.unsupported = offence := Except.error.inj h
      exact .unsupported rfl
    · rintro (_ | ⟨hkind, _⟩ | ⟨hkind, _, _⟩ | ⟨hkind, _, _, _⟩)
      · rfl
      all_goals cases hkind
  | positional =>
    cases type with
    | none =>
      constructor
      · intro h
        obtain rfl : Offence.untyped = offence := Except.error.inj h
        exact .untyped rfl rfl
      · rintro (hkind | _ | ⟨_, htype, _⟩ | ⟨_, htype, _, _⟩)
        · cases hkind
        · rfl
        all_goals cases htype
    | some type =>
      have hforward : forwardParameter ⟨name, .positional, some type, default⟩ = .error offence ↔
          forwardType type = .error offence := by
        simp only [forwardParameter]
        cases forwardType type <;> simp [bind, Except.bind]
      rw [hforward]
      constructor
      · intro h
        cases type with
        | name id => cases h
        | subscript wrapper slice =>
          obtain ⟨reason, hmalformed, rfl⟩ := forwardType_subscript_error_iff.1 h
          exact .malformed rfl rfl hmalformed
        | _ =>
          obtain rfl := Except.error.inj h
          exact .unexpected rfl rfl (fun _ he => by cases he) (fun _ _ he => by cases he)
      · rintro (hkind | ⟨_, htype⟩ | ⟨_, htype, hmalformed⟩ | ⟨_, htype, hname, hsubscript⟩)
        · cases hkind
        · cases htype
        · obtain rfl := Option.some.inj htype
          exact forwardType_subscript_error_iff.2 ⟨_, hmalformed, rfl⟩
        · obtain rfl := Option.some.inj htype
          cases type with
          | name id => exact absurd rfl (hname id)
          | subscript wrapper slice => exact absurd rfl (hsubscript wrapper slice)
          | _ => rfl

/-! ## The first objection -/

theorem errorOf?_forwardParameters (function : String) (ps : List Parameter) :
    errorOf? (forwardParameters function ps) = ps.findSome? fun p =>
      (errorOf? (forwardParameter p)).map fun offence => ⟨function, p.name, offence⟩ := by
  induction ps with
  | nil => rfl
  | cons p ps ih =>
    rw [forwardParameters, List.findSome?_cons]
    cases forwardParameter p with
    | error offence => rfl
    | ok p' =>
      simp only [errorOf?_ok, Option.map_none, ← ih]
      cases forwardParameters function ps <;> rfl

theorem errorOf?_forwardFunction (f : Function) :
    errorOf? (forwardFunction f) = errorOf? (forwardParameters f.name f.parameters) := by
  unfold forwardFunction
  cases forwardParameters f.name f.parameters <;> rfl

/-- What is collected already does not decide what is objected to. -/
theorem errorOf?_addAll (g : Generated) (ds : List Declaration) :
    errorOf? (g.addAll ds) = (exposedFunctions ds).findSome? fun f => errorOf? (forwardFunction f) := by
  induction ds generalizing g with
  | nil => rfl
  | cons d ds ih =>
    rw [Generated.addAll, errorOf?_bind]
    cases d with
    | ofFunction f =>
      rw [exposedFunctions_ofFunction, Generated.add]
      by_cases hmark : f.isMarked Vocabulary.exposed
      · simp only [hmark, ↓reduceIte, List.findSome?_cons]
        cases forwardFunction f with
        | error o => rfl
        | ok f' => exact ih _
      · simp only [hmark]
        exact ih g
    | ofClass c =>
      rw [exposedFunctions_ofClass, Generated.add]
      by_cases hbase : c.hasBase Vocabulary.recordBase
      · simp only [hbase, ↓reduceIte]
        exact ih _
      · simp only [hbase]
        exact ih g
    | other => exact ih g

/-- The objection to a function is to its first parameter that offends. -/
structure Function.FirstOffence (f : Function) (o : Objection) : Prop where
  function : o.function = f.name
  parameter : ∃ before p after, f.parameters = before ++ p :: after ∧
    (∀ q ∈ before, ∀ offence, ¬q.Offends offence) ∧ o.parameter = p.name ∧ p.Offends o.offence

theorem errorOf?_forwardParameter_eq_none_iff {p : Parameter} :
    errorOf? (forwardParameter p) = none ↔ ∀ offence, ¬p.Offends offence := by
  simp only [Option.eq_none_iff_forall_ne_some, ne_eq, errorOf?_eq_some_iff, forwardParameter_eq_error_iff]

theorem forwardFunction_eq_error_iff {f : Function} {o : Objection} :
    forwardFunction f = .error o ↔ f.FirstOffence o := by
  rw [← errorOf?_eq_some_iff, errorOf?_forwardFunction, errorOf?_forwardParameters, List.findSome?_eq_some_iff]
  simp only [Option.map_eq_some_iff, Option.map_eq_none_iff, errorOf?_eq_some_iff, forwardParameter_eq_error_iff,
    errorOf?_forwardParameter_eq_none_iff]
  constructor
  · rintro ⟨before, p, after, hparameters, ⟨offence, hoffends, rfl⟩, hbefore⟩
    exact ⟨rfl, before, p, after, hparameters, hbefore, rfl, hoffends⟩
  · rintro ⟨hfunction, before, p, after, hparameters, hbefore, hname, hoffends⟩
    refine ⟨before, p, after, hparameters, ⟨o.offence, hoffends, ?_⟩, hbefore⟩
    rw [← hfunction, ← hname]

theorem errorOf?_forwardFunction_eq_none_iff {f : Function} :
    errorOf? (forwardFunction f) = none ↔ ∀ p ∈ f.parameters, ∀ offence, ¬p.Offends offence := by
  rw [errorOf?_forwardFunction, errorOf?_forwardParameters, List.findSome?_eq_none_iff]
  simp only [Option.map_eq_none_iff, errorOf?_forwardParameter_eq_none_iff]

theorem mem_exposedFunctions_iff {f : Function} {ds : List Declaration} :
    f ∈ exposedFunctions ds ↔ .ofFunction f ∈ ds ∧ .name "jsonrpc" ∈ f.decorators := by
  have hmark : f.isMarked Vocabulary.exposed = true ↔ .name "jsonrpc" ∈ f.decorators := by
    simp [Function.isMarked, List.any_eq_true, Expr.isName_iff, Vocabulary.exposed]
  rw [← hmark, exposedFunctions, List.mem_filterMap]
  constructor
  · rintro ⟨d, hd, hf⟩
    split at hf
    · split at hf
      · cases hf
        exact ⟨hd, ‹_›⟩
      · cases hf
    · cases hf
  · rintro ⟨hd, hf⟩
    exact ⟨_, hd, by simp [hf]⟩

/-- What generation makes of declarations, as far as objections go. -/
structure Objects (ds : List Declaration) : Prop where
  /-- It fails exactly if a function that bears the mark has a parameter that offends. -/
  fails_iff : (∃ o, generate ds = .error o) ↔
    ∃ f, .ofFunction f ∈ ds ∧ .name "jsonrpc" ∈ f.decorators ∧ ∃ p ∈ f.parameters, ∃ offence, p.Offends offence
  /-- The objection is to the first parameter that offends, of the first function that has one. -/
  first_iff : ∀ o, generate ds = .error o ↔ ∃ before f after, exposedFunctions ds = before ++ f :: after ∧
    (∀ g ∈ before, ∀ p ∈ g.parameters, ∀ offence, ¬p.Offends offence) ∧ f.FirstOffence o
  /-- It succeeds exactly if every parameter of a function that bears the mark can be forwarded. -/
  succeeds_iff : (∃ g, generate ds = .ok g) ↔
    ∀ f, .ofFunction f ∈ ds → .name "jsonrpc" ∈ f.decorators → ∀ p ∈ f.parameters, p.Forwardable
  /-- Nothing but the functions that bear the mark is objected to. -/
  only_exposed : ∀ ds', exposedFunctions ds' = exposedFunctions ds → ∀ o, generate ds' = .error o ↔ generate ds = .error o

/-- **Generation objects to the first parameter that offends**, or to nothing and then succeeds. -/
theorem generate_objects (ds : List Declaration) : Objects ds := by
  have hfirst : ∀ ds o, generate ds = .error o ↔
      (exposedFunctions ds).findSome? (fun f => errorOf? (forwardFunction f)) = some o := fun ds o => by
    rw [generate, ← errorOf?_eq_some_iff, errorOf?_addAll]
  have hnone : (∃ g, generate ds = .ok g) ↔
      ∀ f, .ofFunction f ∈ ds → .name "jsonrpc" ∈ f.decorators → ∀ p ∈ f.parameters, ∀ offence, ¬p.Offends offence := by
    rw [← errorOf?_eq_none_iff, generate, errorOf?_addAll, List.findSome?_eq_none_iff]
    simp only [mem_exposedFunctions_iff, and_imp, errorOf?_forwardFunction_eq_none_iff]
  refine ⟨?_, fun o => ?_, ?_, fun ds' hsame o => ?_⟩
  · have hfails : (∃ o, generate ds = .error o) ↔ ¬∃ g, generate ds = .ok g := by
      cases generate ds <;> simp
    rw [hfails, hnone]
    simp only [not_forall, not_not, exists_prop]
  · rw [hfirst, List.findSome?_eq_some_iff]
    simp only [errorOf?_eq_some_iff, forwardFunction_eq_error_iff, errorOf?_forwardFunction_eq_none_iff]
    constructor
    · rintro ⟨before, f, after, hds, hf, hbefore⟩
      exact ⟨before, f, after, hds, hbefore, hf⟩
    · rintro ⟨before, f, after, hds, hbefore, hf⟩
      exact ⟨before, f, after, hds, hf, hbefore⟩
  · rw [hnone]
    simp only [Parameter.not_offends_iff]
  · rw [hfirst, hfirst, hsame]

end PluginTools
