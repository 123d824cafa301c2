/-
Modules of ordinary expressions. The text of one is also that of a legible module, in which each type and each
default is the one that is read in its place; so it is loaded as the stubs of that one, and they are the same as
those that were generated exactly if every expression is read as it is.
-/
import PluginTools.Proofs.KeptFloats
import PluginTools.Proofs.Loading

namespace PluginTools

/-! ## Ordinary modules -/

/-- A parameter with a type and perhaps a default, all of them ordinary. -/
structure Parameter.Ordinary (p : Parameter) : Prop where
  name : isOperandName p.name
  positional : p.kind = .positional
  typed : ∃ t, p.type = some t ∧ t.Ordinary
  default : ∀ d ∈ p.default, d.Ordinary

/-- A function of ordinary expressions. -/
structure Function.Ordinary (f : Function) : Prop where
  name : Word.isWord f.name.toList
  parameters : ∀ p ∈ f.parameters, p.Ordinary
  returns : ∀ t ∈ f.returns, t.Ordinary

/-- What was generated has legible records and functions of ordinary expressions. -/
structure Generated.Ordinary (g : Generated) : Prop where
  records : ∀ c ∈ g.records.values, c.Legible
  functions : ∀ f ∈ g.functions.values, f.Ordinary

/-! ## What is read -/

/-- The parameter with the type and the default that its text is read as. -/
def Parameter.reread (p : Parameter) : Parameter :=
  { p with type := p.type.map Expr.reread, default := p.default.map Expr.reread }

/-- The function with the types and the defaults that its text is read as. -/
def Function.reread (f : Function) : Function :=
  { f with parameters := f.parameters.map Parameter.reread, returns := f.returns.map Expr.reread }

/-- The module with the types and the defaults that its text is read as. -/
def Generated.reread (g : Generated) : Generated :=
  { g with functions := ⟨g.functions.entries.map fun entry => (entry.1, entry.2.reread)⟩ }

/-- The parameter of a stub with the type and the default that its text is read as. -/
def StubParameter.reread (p : StubParameter) : StubParameter :=
  { p with type := p.type.reread, default := p.default.map Expr.reread }

def Stub.reread (s : Stub) : Stub :=
  { s with parameters := s.parameters.map StubParameter.reread, returns := s.returns.map Expr.reread }

def StubSet.reread (s : StubSet) : StubSet := { s with stubs := s.stubs.map Stub.reread }

theorem Generated.values_reread (g : Generated) : g.reread.functions.values = g.functions.values.map Function.reread := by
  simp [Roster.values, reread, Function.comp_def]

theorem Parameter.Ordinary.legible_reread {p : Parameter} (h : p.Ordinary) : p.reread.Legible where
  name := h.name
  positional := h.positional
  typed := by
    obtain ⟨t, htype, ht⟩ := h.typed
    exact ⟨t.reread, by simp [reread, htype], ht.rereads.legible⟩
  default := Option.forall_mem_map.2 fun d hd => (h.default d hd).rereads.legible

theorem Parameter.Ordinary.chars_reread {p : Parameter} (h : p.Ordinary) : p.reread.chars = p.chars := by
  obtain ⟨name, kind, type, default⟩ := p
  obtain ⟨t, rfl, ht⟩ := h.typed
  have htext := ht.rereads.chars
  cases default with
  | none => simp [reread, Parameter.chars, htext]
  | some d =>
    have hdefault := (h.default d rfl).rereads.chars
    simp [reread, Parameter.chars, htext, hdefault]

theorem Function.Ordinary.legible_reread {f : Function} (h : f.Ordinary) : f.reread.Legible where
  name := h.name
  parameters := List.forall_mem_map.2 fun p hp => (h.parameters p hp).legible_reread
  returns := Option.forall_mem_map.2 fun t ht => (h.returns t ht).rereads.legible

theorem Function.Ordinary.chars_reread {f : Function} (h : f.Ordinary) : f.reread.chars = f.chars := by
  have hparameters : (f.parameters.map Parameter.reread).map Parameter.chars = f.parameters.map Parameter.chars := by
    rw [List.map_map]
    exact List.map_congr_left fun p hp => (h.parameters p hp).chars_reread
  cases hreturns : f.returns with
  | none => simp [reread, Function.chars, hparameters, hreturns]
  | some t =>
    have htext := (h.returns t hreturns).rereads.chars
    simp [reread, Function.chars, hparameters, hreturns, htext]

theorem Generated.Ordinary.legible_reread {g : Generated} (h : g.Ordinary) : g.reread.Legible where
  records := h.records
  functions := by
    rw [values_reread]
    exact List.forall_mem_map.2 fun f hf => (h.functions f hf).legible_reread

/-- What is read in an ordinary module has its text. -/
theorem Generated.Ordinary.chars_reread {g : Generated} (h : g.Ordinary) : g.reread.chars = g.chars := by
  have hfunctions : (g.functions.values.map Function.reread).flatMap functionChars = g.functions.values.flatMap functionChars := by
    rw [List.flatMap_map]
    exact List.flatMap_congr fun f hf => by rw [functionChars, functionChars, (h.functions f hf).chars_reread]
  rw [Generated.chars, Generated.chars, values_reread, hfunctions]
  rfl

/-! ## Loading -/

/-- A descriptor is read as it is. -/
theorem reread_describedType (type : Expr) (description : String) :
    (Vocabulary.describedType type description).reread = Vocabulary.describedType type.reread description := by
  rw [Vocabulary.describedType, Expr.reread_subscript_name]
  rfl

theorem Carries.reread {p : Parameter} {q : StubParameter} (h : Carries p q) : Carries p.reread q.reread := by
  cases h with
  | bare name id default => exact .bare name id (default.map Expr.reread)
  | described name type description default =>
    have hdescribed := Carries.described name type.reread description (default.map Expr.reread)
    rwa [← reread_describedType] at hdescribed

theorem ForwardsTo.reread {f : Function} {s : Stub} (h : ForwardsTo f s) : ForwardsTo f.reread s.reread where
  forwards := by
    refine ⟨h.forwards.decorators, ?_⟩
    have hnames : f.reread.parameters.map (·.name) = f.parameters.map (·.name) := by
      simp [Function.reread, Parameter.reread, Function.comp_def]
    rw [hnames]
    exact h.forwards.body
  name := h.name
  description := h.description
  parameters := List.forall₂_map_left_iff.2 (List.forall₂_map_right_iff.2 (h.parameters.imp fun _ _ => Carries.reread))
  returns := by rw [Stub.reread, Function.reread, h.returns]

/-- **The text of an ordinary module is loaded** unless what is read in it is no type somewhere, and then as the
set of stubs that was generated, with the types and the defaults that are read. -/
theorem Generated.load_ordinary {ds : List Declaration} {g : Generated} (h : generate ds = .ok g) (hg : g.Ordinary) :
    ∃ set, g.stubs = .ok set ∧ (Source.parse? g.chars).map StubSet.load = set.reread.typed.map .ok := by
  obtain ⟨ss, -, hss, -⟩ := generate_forwards h
  generalize (Roster.ofList ss (·.name)).values = ss at hss
  refine ⟨_, stubs_of_forwards hss, ?_⟩
  have hbases : ∀ c ∈ g.records.values, c.hasBase Vocabulary.recordBase := hasBase_of_generate h
  obtain ⟨hclasses, hfunctions⟩ := nodup_of_generate h
  have hreread : List.Forall₂ ForwardsTo g.reread.functions.values (ss.map Stub.reread) := by
    rw [values_reread]
    exact List.forall₂_map_left_iff.2 (List.forall₂_map_right_iff.2 (hss.imp fun _ _ => ForwardsTo.reread))
  have hnames : g.reread.functions.values.map (·.name) = g.functions.values.map (·.name) := by
    simp [values_reread, Function.reread, Function.comp_def]
  rw [← hg.chars_reread]
  exact load_of_forwards hg.legible_reread hreread hbases hclasses (hnames ▸ hfunctions)

/-! ## What is the same -/

/-- Whether the type and the default of a parameter are read as they are. -/
def StubParameter.isUpright (p : StubParameter) : Bool := p.type.isUprightType && p.default.all (·.isUpright)

def Stub.isUpright (s : Stub) : Bool := s.parameters.all (·.isUpright) && s.returns.all (·.isUprightType)

/-- Whether all types and defaults of a set of stubs are read as they are. -/
def StubSet.isUpright (s : StubSet) : Bool := s.stubs.all (·.isUpright)

theorem sameAll_mapM_iff {same : α → α → Bool} {f : α → Option α} {k : α → α} {P : α → Prop} {as bs : List α}
    (h : ∀ b ∈ bs, ∀ a, f (k b) = some a → (same a b ↔ P b)) (hmap : (bs.map k).mapM f = some as) :
    sameAll same as bs ↔ ∀ b ∈ bs, P b := by
  rw [List.mapM_map] at hmap
  induction mapM_eq_some_iff.1 hmap with
  | nil => simp [sameAll]
  | cons hb hbs ih =>
    obtain ⟨hfirst, hrest⟩ := List.forall_mem_cons.1 h
    simp [sameAll, hfirst _ hb, ih hrest (mapM_eq_some_iff.2 hbs)]

theorem sameAll_self {same : α → α → Bool} {as : List α} (h : ∀ a ∈ as, same a a) : sameAll same as as := by
  induction as with
  | nil => rfl
  | cons a as ih =>
    obtain ⟨ha, has⟩ := List.forall_mem_cons.1 h
    simp [sameAll, ha, ih has]

theorem Expr.same_default_iff {default : Option Expr} (h : ∀ d ∈ default, d.Ordinary) :
    sameOption (default.map reread) default ↔ default.all (·.isUpright) := by
  cases default with
  | none => simp [sameOption]
  | some d => simpa [sameOption] using (h d rfl).same_reread_iff

theorem Expr.same_return_iff {returns returns' : Option Expr} (h : ∀ t ∈ returns, t.Ordinary)
    (hread : returnOf (returns.map reread) = some returns') :
    sameOption returns' returns ↔ returns.all (·.isUprightType) := by
  cases returns with
  | none =>
    cases hread
    simp [sameOption]
  | some t =>
    obtain ⟨t', ht, rfl⟩ := Option.map_eq_some_iff.1 hread
    simpa [sameOption] using (h t rfl).same_typeOf_iff ht

theorem StubParameter.same_iff {p q : StubParameter} (htype : p.type.Ordinary) (hdefault : ∀ d ∈ p.default, d.Ordinary)
    (hq : p.reread.typed = some q) : q.same p ↔ p.isUpright := by
  obtain ⟨t, ht, rfl⟩ := Option.map_eq_some_iff.1 hq
  simp [same, isUpright, reread, htype.same_typeOf_iff ht, Expr.same_default_iff hdefault]

theorem Stub.same_iff {s t : Stub} (h : s.ConsistsOf Expr.Ordinary) (ht : s.reread.typed = some t) : t.same s ↔ s.isUpright := by
  obtain ⟨ps, hps, ht⟩ := Option.bind_eq_some_iff.1 ht
  obtain ⟨returns, hreturns, rfl⟩ := Option.map_eq_some_iff.1 ht
  have hparameters : sameAll StubParameter.same ps s.parameters ↔ ∀ p ∈ s.parameters, p.isUpright :=
    sameAll_mapM_iff (fun p hp _ hq => StubParameter.same_iff (h.parameters p hp).1 (h.parameters p hp).2 hq) hps
  simp [same, isUpright, reread, hparameters, Expr.same_return_iff h.returns hreturns]

/-- **What is read is the same** exactly if every type and every default is read as it is. -/
theorem StubSet.same_iff {s t : StubSet} (h : ∀ x ∈ s.stubs, x.ConsistsOf Expr.Ordinary) (hrecords : ∀ r ∈ s.records, r.same r)
    (ht : s.reread.typed = some t) : t.same s ↔ s.isUpright := by
  obtain ⟨ts, hts, rfl⟩ := Option.map_eq_some_iff.1 ht
  have hstubs : sameAll Stub.same ts s.stubs ↔ ∀ x ∈ s.stubs, x.isUpright :=
    sameAll_mapM_iff (fun x hx _ hy => Stub.same_iff (h x hx) hy) hts
  have hself := sameAll_self hrecords
  simp [same, isUpright, reread, hstubs, hself]

theorem Expr.default_reread_self {default : Option Expr} (h : ∀ d ∈ default, d.Ordinary) (hupright : default.all (·.isUpright)) :
    default.map reread = default := by
  cases default with
  | none => rfl
  | some d => rw [Option.map_some, (h d rfl).reread_eq_iff.2 hupright]

theorem Expr.returnOf_self {returns : Option Expr} (h : ∀ t ∈ returns, t.Ordinary)
    (hupright : returns.all (·.isUprightType)) : returnOf (returns.map reread) = some returns := by
  cases returns with
  | none => rfl
  | some t => rw [Option.map_some, returnOf, (h t rfl).typeOf_reread_eq_iff.2 hupright, Option.map_some]

theorem StubParameter.typed_self {p : StubParameter} (htype : p.type.Ordinary) (hdefault : ∀ d ∈ p.default, d.Ordinary)
    (h : p.isUpright) : p.reread.typed = some p := by
  rw [isUpright, Bool.and_eq_true] at h
  simp [typed, reread, htype.typeOf_reread_eq_iff.2 h.1, Expr.default_reread_self hdefault h.2]

theorem Stub.typed_self {s : Stub} (h : s.ConsistsOf Expr.Ordinary) (hupright : s.isUpright) : s.reread.typed = some s := by
  rw [isUpright, Bool.and_eq_true, List.all_eq_true] at hupright
  have hparameters : (s.parameters.map StubParameter.reread).mapM StubParameter.typed = some s.parameters := by
    rw [List.mapM_map, mapM_self_iff]
    exact fun p hp => StubParameter.typed_self (h.parameters p hp).1 (h.parameters p hp).2 (hupright.1 p hp)
  simp [typed, reread, hparameters, Expr.returnOf_self h.returns hupright.2]

/-- A set of stubs in which every type and every default is read as it is, is read. -/
theorem StubSet.typed_self {s : StubSet} (h : ∀ x ∈ s.stubs, x.ConsistsOf Expr.Ordinary) (hupright : s.isUpright) :
    s.reread.typed = some s := by
  have hstubs : (s.stubs.map Stub.reread).mapM Stub.typed = some s.stubs := by
    rw [List.mapM_map, mapM_self_iff]
    exact fun x hx => Stub.typed_self (h x hx) (List.all_eq_true.1 hupright x hx)
  simp [typed, reread, hstubs]

/-! ## What is loaded -/

theorem Function.Ordinary.consistsOf {f : Function} (h : f.Ordinary) : f.ConsistsOf Expr.Ordinary where
  parameters p hp := ⟨(h.parameters p hp).typed, (h.parameters p hp).default⟩
  returns := h.returns

theorem ordinary_of_describedType {type : Expr} {description : String}
    (h : (Vocabulary.describedType type description).Ordinary) : type.Ordinary := by
  cases h with
  | subscript _ _ hslice => exact hslice type List.mem_cons_self

/-- The fields of a legible record are the same as themselves. -/
theorem Class.Legible.same_self {c : Class} (h : c.Legible) : (Record.ofClass c).same (Record.ofClass c) := by
  obtain ⟨written, -, hfields, -⟩ := h.written
  have hsame : ∀ field ∈ c.fields, field.2.same field.2 := fun field hfield => by
    obtain ⟨w, -, hw⟩ := exists_of_forall₂_right hfields hfield
    obtain ⟨t, ht, rfl⟩ := Option.map_eq_some_iff.1 hw.reads
    refine Expr.same_self t fun d hd => Double.same_self ?_
    exact hw.legible.isFinite_of_mem_floats d (hw.legible.floats_typeOf ht ▸ hd)
  have hequal : sameAll (fun x y => x.1 == y.1 && x.2.same y.2) c.fields c.fields :=
    sameAll_self fun field hfield => by simp [hsame field hfield]
  simp [Record.same, Record.ofClass, hequal]

namespace Generated

variable {ds : List Declaration} {g : Generated}

/-- What an ordinary module's text is loaded as, and when that is the same as what was generated. -/
theorem load_same (h : generate ds = .ok g) (hg : g.Ordinary) : ∃ set, g.stubs = .ok set ∧
    (Source.parse? g.chars).map StubSet.load = set.reread.typed.map .ok ∧
      (set.isUpright → set.reread.typed = some set) ∧
        ∀ set', set.reread.typed = some set' → (set'.same set ↔ set.isUpright) := by
  obtain ⟨set, hset, hload⟩ := load_ordinary h hg
  have hordinary : ∀ s ∈ set.stubs, s.ConsistsOf Expr.Ordinary :=
    consistsOf_of_stubs (fun _ _ => ordinary_of_describedType) h (fun f hf => (hg.functions f hf).consistsOf) hset
  refine ⟨set, hset, hload, StubSet.typed_self hordinary, fun set' hread => StubSet.same_iff hordinary ?_ hread⟩
  obtain ⟨ss, -, hss, -⟩ := generate_forwards h
  obtain rfl : ⟨g.records.values.map Record.ofClass, _⟩ = set := Except.ok.inj ((stubs_of_forwards hss).symm.trans hset)
  exact List.forall_mem_map.2 fun c hc => (hg.records c hc).same_self

end Generated
end PluginTools
