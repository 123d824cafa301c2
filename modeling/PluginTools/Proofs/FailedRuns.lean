/-
Runs that fail. The module is written before it is loaded back, so one failure comes too late: a module that cannot
be loaded has already replaced the old one. `failing_run_keeps_iff` says that this is the only case in which a
failing run changes a file, and which plugins of the plain language cause it.
-/
import PluginTools.Proofs.PlainModule
import PluginTools.Run

namespace PluginTools

/-! ## Files -/

namespace Disk

variable {d d' : Disk} {path : String} {content : List UInt8}

/-- A path that can be written ends in a name. -/
theorem isNamed_of_fileFault? (h : d.fileFault? path = none) :
    (FilePath.segments path).getLast?.any FilePath.isNamed := by
  unfold fileFault? at h
  rw [List.getLastD_eq_getLast?] at h
  cases hlast : (FilePath.segments path).getLast? with
  | none => simp [hlast] at h
  | some last =>
    simp only [hlast, Option.getD_some] at h
    have hempty : last ≠ [] := by
      rintro rfl
      simp at h
    have hdot : last ≠ ['.'] := by
      rintro rfl
      -- Where a path ends in a dot, each of the three cases is a fault.
      by_cases hfile : (d.file? (FilePath.names path)).isSome
      · simp [hfile] at h
      · by_cases hdirectory : d.isDirectory (FilePath.names path) ∨ (FilePath.names path).getLast? = some ['.', '.']
        · simp [hfile, hdirectory] at h
        · simp [hfile, hdirectory] at h
    simp [FilePath.isNamed, hempty, hdot]

theorem write_ok (h : d.write path content = .ok d') : d.fileFault? path = none ∧ d' = d.put path content := by
  unfold write at h
  split at h
  · cases h
  · split at h
    · cases h
    · split at h
      · cases h
      · next hfault =>
        cases h
        exact ⟨hfault, rfl⟩

/-- What was written is what is read. -/
theorem read?_write (h : d.write path content = .ok d') : d'.read? path = some content := by
  obtain ⟨hfault, rfl⟩ := write_ok h
  rw [read?, if_pos (isNamed_of_fileFault? hfault), file?, put, Roster.get?_insert, if_pos rfl]

end Disk

/-! ## The steps of a run -/

namespace Run

variable {locate : List Char → Option Position} {paths : Paths} {disk : Disk}

/-- What is generated from the plugin's source, if it is there, is text and can be read, and nothing in it is
objected to. -/
def Generates (paths : Paths) (disk : Disk) (g : Generated) : Prop :=
  ∃ octets source ds, disk.read? paths.plugin = some octets ∧ Utf8.text? octets = some source ∧
    Source.parse? source = some ds ∧ generate ds = .ok g

/-- A module that a run can write and that cannot be loaded. -/
structure Spoils (paths : Paths) (disk : Disk) (g : Generated) : Prop where
  generated : Generates paths disk g
  written : ∃ disk', disk.write paths.generated (octets g.chars) = .ok disk'
  unloadable : ∀ ds set, Source.parse? g.chars = some ds → StubSet.load ds ≠ .ok set

theorem Generates.unique {g g' : Generated} (h : Generates paths disk g) (h' : Generates paths disk g') : g = g' := by
  obtain ⟨octets, source, ds, hread, htext, hparse, hg⟩ := h
  obtain ⟨octets', source', ds', hread', htext', hparse', hg'⟩ := h'
  obtain rfl := Option.some.inj (hread.symm.trans hread')
  obtain rfl := Option.some.inj (htext.symm.trans htext')
  obtain rfl := Option.some.inj (hparse.symm.trans hparse')
  exact Except.ok.inj (hg.symm.trans hg')

theorem definition_eq_ok_iff {content : Option (List UInt8)} {source : List Char} :
    definition paths content = .ok source ↔ ∃ octets, content = some octets ∧ Utf8.text? octets = some source := by
  unfold definition
  cases content with
  | none => simp
  | some octets => cases htext : Utf8.text? octets <;> simp [htext]

theorem artifact_eq_ok_iff {source : List Char} {g : Generated} :
    artifact locate paths source = .ok g ↔ ∃ ds, Source.parse? source = some ds ∧ generate ds = .ok g := by
  unfold artifact
  cases Source.parse? source with
  | none => simp
  | some ds => cases hg : generate ds <;> simp [hg]

theorem load_eq_ok_iff {text : List Char} {set : StubSet} :
    load locate paths text = .ok set ↔ ∃ ds, Source.parse? text = some ds ∧ StubSet.load ds = .ok set := by
  unfold load
  cases Source.parse? text with
  | none => simp
  | some ds => cases hload : StubSet.load ds <;> simp [hload]

/-- The text of what is generated is written, if it can be. -/
theorem emit_eq_ok_iff {text : List Char} {disk' : Disk} : emit locate paths disk = .ok (text, disk') ↔
    ∃ g, Generates paths disk g ∧ g.chars = text ∧ disk.write paths.generated (octets text) = .ok disk' := by
  simp only [emit, Except.bind_eq_ok_iff, definition_eq_ok_iff, artifact_eq_ok_iff]
  constructor
  · rintro ⟨source, ⟨octets, hread, htext⟩, g, ⟨ds, hparse, hg⟩, h⟩
    refine ⟨g, ⟨octets, source, ds, hread, htext, hparse, hg⟩, ?_⟩
    split at h
    · cases h
    · next hwrite =>
      cases h
      exact ⟨rfl, hwrite⟩
  · rintro ⟨g, ⟨octets, source, ds, hread, htext, hparse, hg⟩, rfl, hwrite⟩
    exact ⟨source, ⟨octets, hread, htext⟩, g, ⟨ds, hparse, hg⟩, by rw [hwrite]⟩

/-- **A run either fails and leaves all files, or it writes the module that it generated** and ends with what loading
it gives. -/
theorem prepare_cases (locate : List Char → Option Position) (paths : Paths) (disk : Disk) :
    ((∀ g, ¬Spoils paths disk g) ∧ ∃ failure, prepare locate paths disk = (.error failure, disk)) ∨
      ∃ g disk', Generates paths disk g ∧ disk.write paths.generated (octets g.chars) = .ok disk' ∧
        prepare locate paths disk = (load locate paths g.chars, disk') := by
  unfold prepare
  split
  · next failure hemit =>
    refine .inl ⟨fun g ⟨hg, ⟨disk', hwrite⟩, _⟩ => ?_, failure, rfl⟩
    cases hemit.symm.trans (emit_eq_ok_iff.2 ⟨g, hg, rfl, hwrite⟩)
  · next text disk' hemit =>
    obtain ⟨g, hg, rfl, hwrite⟩ := emit_eq_ok_iff.1 hemit
    exact .inr ⟨g, disk', hg, hwrite, rfl⟩

/-! ## Runs that fail -/

theorem failed_of_code {outcome : Except RunFailure StubSet} (h : (ending outcome).code ≠ 0) :
    ∃ failure, outcome = .error failure := by
  cases outcome with
  | error failure => exact ⟨failure, rfl⟩
  | ok set => exact absurd rfl h

/-- A module of the plain language cannot be loaded exactly if one of its types is none without its parentheses. -/
theorem spoils_iff_of_plain {g : Generated} (hg : Generates paths disk g) (hplain : g.Plain) :
    ∃ set, g.stubs = .ok set ∧ (Spoils paths disk g ↔
      (∃ disk', disk.write paths.generated (octets g.chars) = .ok disk') ∧ set.asRead = none) := by
  obtain ⟨octets, source, ds, -, -, -, hgenerate⟩ := id hg
  obtain ⟨set, hset, hload⟩ := Generated.load_chars hgenerate hplain
  refine ⟨set, hset, fun ⟨_, hwritten, hunloadable⟩ => ⟨hwritten, ?_⟩, fun ⟨hwritten, hnone⟩ => ⟨hg, hwritten, ?_⟩⟩
  · cases hread : set.asRead with
    | none => rfl
    | some read =>
      rw [hread, Option.map_some] at hload
      obtain ⟨ds', hparse, hloaded⟩ := Option.map_eq_some_iff.1 hload
      exact absurd hloaded (hunloadable ds' read hparse)
  · intro ds' set' hparse
    rw [hnone, hparse] at hload
    cases hload

/-- How a run that fails leaves the files. -/
structure Leaves (paths : Paths) (disk after : Disk) : Prop where
  /-- The generated file is as it was, or still missing, unless a module spoils it that is not what it held. -/
  kept_iff : after.read? paths.generated = disk.read? paths.generated ↔
    ∀ g, Spoils paths disk g → disk.read? paths.generated = some (octets g.chars)
  /-- If no module spoils it, all files are as they were. -/
  untouched : (∀ g, ¬Spoils paths disk g) → after = disk
  /-- If the module is one of the plain language, it spoils the file exactly if it can be written and one of its types
  is none without its parentheses. -/
  plain : ∀ g, Generates paths disk g → g.Plain → ∃ set, g.stubs = .ok set ∧ (Spoils paths disk g ↔
    (∃ disk', disk.write paths.generated (octets g.chars) = .ok disk') ∧ set.asRead = none)

/-- **A run that fails leaves the generated file as it was**, unless it could write its module and then not load it. -/
theorem failing_run_keeps_iff (locate : List Char → Option Position) (paths : Paths) (disk : Disk)
    (failed : (ending (prepare locate paths disk).1).code ≠ 0) :
    Leaves paths disk (prepare locate paths disk).2 := by
  obtain ⟨failure, hfailure⟩ := failed_of_code failed
  rcases prepare_cases locate paths disk with ⟨hnone, failure', hprepare⟩ | ⟨g, disk', hg, hwrite, hprepare⟩
  · rw [hprepare]
    exact ⟨iff_of_true rfl fun g hspoils => absurd hspoils (hnone g), fun _ => rfl, fun _ => spoils_iff_of_plain⟩
  · rw [hprepare] at hfailure ⊢
    have hspoils : Spoils paths disk g := by
      refine ⟨hg, ⟨disk', hwrite⟩, fun ds set hparse hloaded => ?_⟩
      rw [load_eq_ok_iff.2 ⟨ds, hparse, hloaded⟩] at hfailure
      cases hfailure
    refine ⟨?_, fun h => absurd hspoils (h g), fun _ => spoils_iff_of_plain⟩
    rw [Disk.read?_write hwrite]
    constructor
    · intro hkept g' hspoils'
      rw [← hg.unique hspoils'.generated]
      exact hkept.symm
    · exact fun h => (h g hspoils).symm

/-- A plugin whose module cannot be read, next to the module of an earlier run. -/
def bracketsDisk : Disk :=
  (Disk.put {} "mcp-plugin.py" (octets "@jsonrpc\ndef f() -> (a[b])[c]:\n    pass\n".toList)).put "server_generated.py"
    (octets "stale = 1\n".toList)

/-- Its run fails and leaves another file than it found. -/
theorem failing_run_keeps_iff_bracketsDisk : let paths := Paths.beside ""
    let (outcome, after) := prepare (fun _ => none) paths bracketsDisk
    (ending outcome).code ≠ 0 ∧ after.read? paths.generated ≠ bracketsDisk.read? paths.generated ∧
      Leaves paths bracketsDisk after := by
  have hends : (ending (prepare (fun _ => none) (Paths.beside "") bracketsDisk).1).code ≠ 0 ∧
      (prepare (fun _ => none) (Paths.beside "") bracketsDisk).2.read? (Paths.beside "").generated ≠
        bracketsDisk.read? (Paths.beside "").generated := by decide +kernel
  exact ⟨hends.1, hends.2, failing_run_keeps_iff _ _ _ hends.1⟩

end Run
end PluginTools
