/-
The two ways to a set of stubs: from what was generated, and from its text. On the plain language they agree as far
as the types keep: an expression's text need not be the same type, since parentheses are not written.
-/
import PluginTools.Proofs.PlainModule
import PluginTools.Proofs.OrdinaryModule

namespace PluginTools

/-! ## Types that keep -/

/-- Whether the types of a stub are the same in a text. -/
def Stub.keepsTypes (s : Stub) : Bool :=
  s.parameters.all (·.type.keepsType) && s.returns.all (·.keepsType)

/-- Whether the types of all stubs are. -/
def StubSet.keepsTypes (s : StubSet) : Bool := s.stubs.all Stub.keepsTypes

/-- A plain type keeps exactly if it is upright. -/
theorem Expr.Plain.isUprightType_iff {e : Expr} (h : e.Plain) : e.isUprightType ↔ e.keepsType := by
  rw [← h.ordinary.typeOf_reread_eq_iff, h.ordinary.reread_eq_iff.2 h.legible.isUpright, h.typeOf_eq, h.asType_self_iff]

theorem Stub.isUpright_iff {s : Stub} (h : s.ConsistsOf Expr.Plain) : s.isUpright ↔ s.keepsTypes := by
  have hparameters : ∀ p ∈ s.parameters, (p.isUpright ↔ p.type.keepsType) := fun p hp => by
    have hdefault : p.default.all (·.isUpright) :=
      (Option.all_eq_true _ _).2 fun d hd => ((h.parameters p hp).2 d hd).legible.isUpright
    simp [StubParameter.isUpright, (h.parameters p hp).1.isUprightType_iff, hdefault]
  have hreturns : s.returns.all (·.isUprightType) ↔ s.returns.all (·.keepsType) := by
    simp only [Option.all_eq_true]
    exact forall₂_congr fun t ht => (h.returns t ht).isUprightType_iff
  simp only [isUpright, keepsTypes, Bool.and_eq_true, List.all_eq_true, hreturns]
  exact and_congr_left' (forall₂_congr hparameters)

theorem StubSet.isUpright_iff {s : StubSet} (h : ∀ t ∈ s.stubs, t.ConsistsOf Expr.Plain) : s.isUpright ↔ s.keepsTypes := by
  simp only [isUpright, keepsTypes, List.all_eq_true]
  exact forall₂_congr fun t ht => Stub.isUpright_iff (h t ht)

theorem Parameter.Plain.ordinary {p : Parameter} (h : p.Plain) : p.Ordinary where
  name := isOperandName_of_isIdentifier h.name
  positional := h.positional
  typed := h.typed.imp fun _ ht => ht.imp_right Expr.Plain.ordinary
  default d hd := (h.default d hd).ordinary

theorem Function.Plain.ordinary {f : Function} (h : f.Plain) : f.Ordinary where
  name := isWord_of_isIdentifier h.name
  parameters p hp := (h.parameters p hp).ordinary
  returns t ht := (h.returns t ht).ordinary

theorem Generated.Plain.ordinary {g : Generated} (h : g.Plain) : g.Ordinary where
  records c hc := (h.records c hc).legible
  functions f hf := (h.functions f hf).ordinary

/-! ## Back from the text -/

variable {ds : List Declaration} {g : Generated}

/-- **A plain module loads back to the same stubs exactly if its types keep.** -/
theorem loads_same_iff (h : generate ds = .ok g) (hplain : g.Plain) : ∃ set, g.stubs = .ok set ∧
    ((∃ ds' set', Source.parse? g.chars = some ds' ∧ StubSet.load ds' = .ok set' ∧ set'.same set) ↔ set.keepsTypes) := by
  obtain ⟨set, hset, hload, hself, hsame⟩ := Generated.load_same h hplain.ordinary
  refine ⟨set, hset, ?_⟩
  rw [← StubSet.isUpright_iff (Generated.plain_of_stubs h hplain hset)]
  constructor
  · rintro ⟨ds', set', hparse, hloaded, hequal⟩
    rw [hparse, Option.map_some, hloaded] at hload
    obtain ⟨read, hread, he⟩ := Option.map_eq_some_iff.1 hload.symm
    obtain rfl := Except.ok.inj he
    exact (hsame read hread).1 hequal
  · intro hupright
    have hread := hself hupright
    rw [hread] at hload
    obtain ⟨ds', hparse, hloaded⟩ := Option.map_eq_some_iff.1 hload
    exact ⟨ds', set, hparse, hloaded, (hsame set hread).2 hupright⟩

/-- A plugin with a record and two functions. -/
def notesPlugin : List Declaration := [
  .ofClass ⟨"Note", [.name "TypedDict"], [("title", .name "str")], "class Note(TypedDict):\n    title: str", 1⟩,
  .ofFunction ⟨"find", [.name "jsonrpc"],
    [⟨"kind", .positional, some (.subscript (.name "Annotated")
        (.tuple [.subscript (.name "Optional") (.name "int"), .text "which one"])), some (.literal .none)⟩],
    some (.subscript (.name "list") (.name "Note")), [.expression (.text "Finds notes.")], 4⟩]

/-- What is generated for it. -/
def notesModule : Generated where
  records := ⟨[("Note",
    ⟨"Note", [.name "TypedDict"], [("title", .name "str")], "class Note(TypedDict):\n    title: str", 1⟩)]⟩
  functions := ⟨[("find", ⟨"find", [Vocabulary.toolMark],
    [⟨"kind", .positional, some (Vocabulary.describedType (.subscript (.name "Optional") (.name "int")) "which one"),
      some (.literal .none)⟩],
    some (.subscript (.name "list") (.name "Note")),
    [.expression (.text "Finds notes."), .result (some (forwardCall "find" ["kind"]))], 4⟩)]⟩

theorem notesModule_plain : notesModule.Plain := by
  have hname : ∀ {id : String}, isIdentifier id → (Expr.name id).Plain := fun h => .name h
  refine ⟨fun c hc => ?_, fun f hf => ?_⟩
  · obtain rfl := List.mem_singleton.1 hc
    refine ⟨by decide, fun b hb => ?_, [("title", .name "str")], by simp, ?_, by decide⟩
    · obtain rfl := List.mem_singleton.1 hb
      exact hname (by decide)
    · exact .cons ⟨by decide, hname (by decide), rfl⟩ .nil
  · obtain rfl := List.mem_singleton.1 hf
    refine ⟨by decide, fun p hp => ?_, fun t ht => ?_⟩
    · obtain rfl := List.mem_singleton.1 hp
      refine ⟨by decide, rfl, ⟨_, rfl, plain_describedType.2 ?_⟩, fun d hd => ?_⟩
      · exact .subscript (hname (by decide)) rfl (by simpa [Expr.indices] using hname (by decide)) (by simp)
      · obtain rfl := Option.some.inj hd
        exact .none
    · obtain rfl := Option.some.inj ht
      exact .subscript (hname (by decide)) rfl (by simpa [Expr.indices] using hname (by decide)) (by simp)

/-- The module is loaded as what was generated. -/
theorem notesModule_loads : generate notesPlugin = .ok notesModule ∧ ∃ set ds' set', notesModule.stubs = .ok set ∧
    Source.parse? notesModule.chars = some ds' ∧ StubSet.load ds' = .ok set' ∧ set'.same set := by
  obtain ⟨set, hset, hiff⟩ := loads_same_iff (rfl : generate notesPlugin = .ok notesModule) notesModule_plain
  have hkeeps : set.keepsTypes := by
    cases hset
    rfl
  obtain ⟨ds', set', hparse, hload, hsame⟩ := hiff.2 hkeeps
  exact ⟨rfl, set, ds', set', hset, hparse, hload, hsame⟩

/-- Brackets behind parentheses: without the parentheses the text is no type. -/
theorem brackets_not_read : ((Source.parse? "@jsonrpc\ndef f() -> (a[b])[c]:\n    pass\n".toList).bind fun ds =>
    (generate ds).toOption).map (fun g => (Source.parse? g.chars).isSome) = some false := by decide +kernel

/-- **Where an ordinary module is loaded at all**, it is loaded as the same stubs exactly if every type and every
default is read as it is. -/
theorem loaded_same_iff (h : generate ds = .ok g) (hg : g.Ordinary) {ds' : List Declaration} {set' : StubSet}
    (hparse : Source.parse? g.chars = some ds') (hload : StubSet.load ds' = .ok set') :
    ∃ set, g.stubs = .ok set ∧ (set'.same set ↔ set.isUpright) := by
  obtain ⟨set, hset, hloads, -, hsame⟩ := Generated.load_same h hg
  rw [hparse, Option.map_some, hload] at hloads
  obtain ⟨read, hread, he⟩ := Option.map_eq_some_iff.1 hloads.symm
  obtain rfl := Except.ok.inj he
  exact ⟨set, hset, hsame read hread⟩

/-- A plugin with a default that needs its parentheses, `(1 + 2) * 3`. -/
def areaPlugin : List Declaration := [
  .ofFunction ⟨"area", [.name "jsonrpc"],
    [⟨"side", .positional, some (.name "int"),
      some (.binary (.binary (.literal (.int 1)) "+" (.literal (.int 2))) "*" (.literal (.int 3)))⟩],
    none, [.other "pass"], 1⟩]

/-- What is generated for it. -/
def areaModule : Generated where
  functions := ⟨[("area", ⟨"area", [Vocabulary.toolMark],
    [⟨"side", .positional, some (.name "int"),
      some (.binary (.binary (.literal (.int 1)) "+" (.literal (.int 2))) "*" (.literal (.int 3)))⟩],
    none, [.result (some (forwardCall "area" ["side"]))], 1⟩)]⟩

theorem areaModule_ordinary : areaModule.Ordinary := by
  refine ⟨fun c hc => (List.not_mem_nil hc).elim, fun f hf => ?_⟩
  obtain rfl := List.mem_singleton.1 hf
  refine ⟨by decide, fun p hp => ?_, fun t ht => by cases ht⟩
  obtain rfl := List.mem_singleton.1 hp
  have hint : ∀ {i : Int}, -2 ^ 63 < i → i < 2 ^ 63 → (Expr.literal (.int i)).Ordinary := fun h h' => .int h h'
  refine ⟨by decide, rfl, ⟨_, rfl, .name (by decide)⟩, fun d hd => ?_⟩
  obtain rfl := Option.some.inj hd
  exact .binary (.binary (hint (by decide) (by decide)) (hint (by decide) (by decide)) (by decide))
    (hint (by decide) (by decide)) (by decide)

/-- The module is loaded, but with the default `1 + 2 * 3`. -/
theorem areaModule_not_loaded_same : generate areaPlugin = .ok areaModule ∧ ∃ ds' set set',
    Source.parse? areaModule.chars = some ds' ∧ StubSet.load ds' = .ok set' ∧ areaModule.stubs = .ok set ∧
      set'.same set = false := by
  obtain ⟨set, hset, hload, -, -⟩ := Generated.load_same (rfl : generate areaPlugin = .ok areaModule) areaModule_ordinary
  obtain ⟨set', hread⟩ : ∃ set', set.reread.typed = some set' := by
    cases hset
    exact ⟨_, rfl⟩
  rw [hread] at hload
  obtain ⟨ds', hparse, hloaded⟩ := Option.map_eq_some_iff.1 hload
  obtain ⟨set₂, hset₂, hiff⟩ := loaded_same_iff (rfl : generate areaPlugin = .ok areaModule) areaModule_ordinary hparse hloaded
  have hupright : set₂.isUpright = false := by
    cases hset₂
    decide
  exact ⟨rfl, ds', set₂, set', hparse, hloaded, hset₂, by simpa [hupright] using hiff⟩

end PluginTools
