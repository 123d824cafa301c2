/-
Modules in the plain language. They are legible, so their text is read; and it is loaded as the set of stubs that
generation built, with its types as they are read, unless one of them is none.
-/
import PluginTools.Proofs.Loading
import PluginTools.Proofs.PlainType

namespace PluginTools

/-! ## The plain language -/

/-- A parameter with a type and perhaps a default, all of them plain. -/
structure Parameter.Plain (p : Parameter) : Prop where
  name : isIdentifier p.name
  positional : p.kind = .positional
  typed : ∃ t, p.type = some t ∧ t.Plain
  default : ∀ d ∈ p.default, d.Plain

/-- A function in the plain language. -/
structure Function.Plain (f : Function) : Prop where
  name : isIdentifier f.name
  parameters : ∀ p ∈ f.parameters, p.Plain
  returns : ∀ t ∈ f.returns, t.Plain

/-- A field that is read off its line as another one, which differs in the type at most. -/
structure FieldReads (written read : String × Expr) : Prop where
  name : isIdentifier written.1
  plain : written.2.Plain
  reads : written.2.asType.map (written.1, ·) = some read

/-- A record whose own text is a class with typed fields in the plain language, and which is that class. -/
structure Class.Plain (c : Class) : Prop where
  name : isIdentifier c.name
  bases : ∀ b ∈ c.bases, b.Plain
  written : ∃ fields, fields ≠ [] ∧ List.Forall₂ FieldReads fields c.fields ∧
    c.source = String.ofList (recordText c.name c.bases fields)

/-- What was generated is in the plain language. -/
structure Generated.Plain (g : Generated) : Prop where
  records : ∀ c ∈ g.records.values, c.Plain
  functions : ∀ f ∈ g.functions.values, f.Plain

theorem Parameter.Plain.legible {p : Parameter} (h : p.Plain) : p.Legible where
  name := isOperandName_of_isIdentifier h.name
  positional := h.positional
  typed := h.typed.imp fun _ ht => ht.imp_right Expr.Plain.legible
  default d hd := (h.default d hd).legible

theorem Function.Plain.legible {f : Function} (h : f.Plain) : f.Legible where
  name := isWord_of_isIdentifier h.name
  parameters p hp := (h.parameters p hp).legible
  returns t ht := (h.returns t ht).legible

theorem FieldReads.readsAs {written read : String × Expr} (h : FieldReads written read) : ReadsAs written read where
  name := h.name
  legible := h.plain.legible
  reads := h.plain.typeOf_eq ▸ h.reads

theorem Class.Plain.legible {c : Class} (h : c.Plain) : c.Legible where
  name := isWord_of_isIdentifier h.name
  bases b hb := (h.bases b hb).legible
  written := h.written.imp fun _ hw => ⟨hw.1, hw.2.1.imp fun _ _ => FieldReads.readsAs, hw.2.2⟩

theorem Generated.Plain.legible {g : Generated} (h : g.Plain) : g.Legible where
  records c hc := (h.records c hc).legible
  functions f hf := (h.functions f hf).legible

/-! ## What is read -/

/-- The return type that the text of one is, if it is one. -/
def Expr.asReturn : Option Expr → Option (Option Expr)
  | some t => t.asType.map some
  | .none => some .none

/-- The parameter of a stub that is read off a text, if its type is one. -/
def StubParameter.asRead (p : StubParameter) : Option StubParameter := p.type.asType.map fun type => { p with type }

/-- The stub that is read off a text, if its types are types. -/
def Stub.asRead (s : Stub) : Option Stub :=
  (s.parameters.mapM StubParameter.asRead).bind fun parameters => (Expr.asReturn s.returns).map fun returns =>
    { s with parameters, returns }

/-- The set of stubs that is read off a text, if its types are types. -/
def StubSet.asRead (s : StubSet) : Option StubSet :=
  (s.stubs.mapM Stub.asRead).map fun stubs => { s with stubs }

theorem Stub.typed_eq_asRead {s : Stub} (h : s.ConsistsOf Expr.Plain) : s.typed = s.asRead := by
  have hparameters : s.parameters.mapM StubParameter.typed = s.parameters.mapM StubParameter.asRead :=
    mapM_congr fun p hp => by rw [StubParameter.typed, StubParameter.asRead, (h.parameters p hp).1.typeOf_eq]
  have hreturns : Expr.returnOf s.returns = Expr.asReturn s.returns := by
    cases hr : s.returns with
    | none => rfl
    | some t => rw [Expr.returnOf, Expr.asReturn, (h.returns t hr).typeOf_eq]
  rw [typed, asRead, hparameters, hreturns]

/-- A type with a description is plain if the type is. -/
theorem plain_describedType {type : Expr} {description : String} :
    (Vocabulary.describedType type description).Plain ↔ type.Plain := by
  constructor
  · rintro (_ | _ | _ | _ | _ | _ | ⟨-, -, hslice, -⟩)
    exact hslice type List.mem_cons_self
  · intro h
    have hdescriptor : (Expr.call (.name Vocabulary.descriptor) [] [(Vocabulary.descriptorKeyword, .text description)]).Plain :=
      .call (.name (by decide)) rfl (by simp) (by simpa using by decide) (by simpa using .text description)
    refine .subscript (.name (by decide)) rfl ?_ (by simp)
    simpa [Expr.indices] using ⟨h, hdescriptor⟩

theorem Function.Plain.consistsOf {f : Function} (h : f.Plain) : f.ConsistsOf Expr.Plain where
  parameters p hp := ⟨(h.parameters p hp).typed, (h.parameters p hp).default⟩
  returns := h.returns

/-! ## Loading -/

namespace Generated

variable {ds : List Declaration} {g : Generated}

theorem plain_of_stubs (h : generate ds = .ok g) (hplain : g.Plain) {set : StubSet} (hset : g.stubs = .ok set) :
    ∀ s ∈ set.stubs, s.ConsistsOf Expr.Plain :=
  consistsOf_of_stubs (fun _ _ => plain_describedType.1) h (fun f hf => (hplain.functions f hf).consistsOf) hset

/-- **The text of a plain module is loaded** unless one of its types is none, and then as the set of stubs that
was generated, with its types as they are read. -/
theorem load_chars (h : generate ds = .ok g) (hplain : g.Plain) : ∃ set, g.stubs = .ok set ∧
    (Source.parse? g.chars).map StubSet.load = set.asRead.map .ok := by
  obtain ⟨ss, -, hss, -⟩ := generate_forwards h
  generalize (Roster.ofList ss (·.name)).values = ss at hss
  have hset := stubs_of_forwards hss
  obtain ⟨hclasses, hfunctions⟩ := nodup_of_generate h
  refine ⟨_, hset, ?_⟩
  rw [load_of_forwards hplain.legible hss (hasBase_of_generate h) hclasses hfunctions, StubSet.typed, StubSet.asRead,
    mapM_congr fun s hs => Stub.typed_eq_asRead (plain_of_stubs h hplain hset s hs)]

end Generated
end PluginTools
