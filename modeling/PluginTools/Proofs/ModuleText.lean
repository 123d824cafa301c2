/-
The text of a generated module. Behind the preamble stand the blocks of the records and the functions, each behind
one empty line; they are read one by one, so the whole text is read unless a block is not.
-/
import PluginTools.Proofs.Blocks
import PluginTools.Proofs.Preamble
import PluginTools.Proofs.Records
import PluginTools.Stub.Artifact

namespace PluginTools

open Layout (LineBreak startsToken)

/-- The declaration apart from the line that it starts on. -/
def Declaration.unplaced : Declaration → Declaration
  | .ofFunction f => .ofFunction { f with line := 0 }
  | .ofClass c => .ofClass { c with line := 0 }
  | .other => .other

theorem unplaced_declarationOf (line : Nat) (piece : Piece) :
    (Source.declarationOf line piece).unplaced = Source.declarationOf 0 piece := by
  obtain ⟨item, text⟩ := piece
  cases item <;> rfl

/-! ## Blocks -/

/-- A text that is read as one declaration, or not at all, up to the end of its line. -/
structure Rules.ReadsBlock (r : Rules) (text : List Char) (d : Option Declaration) : Prop where
  starts : ∀ t, startsToken (text ++ t)
  reads : ∀ {rest start : List Char}, LineBreak rest 0 start →
    (r.statement 0 (text ++ rest)).map (fun x => (x.1.map (Source.declarationOf 0), x.2)) = d.map fun d => ([d], rest)

namespace Source

variable {r : Rules} {fuel line : Nat} {cs start rest : List Char}

/-- Where the declarations of a text start. -/
def top : Layout.Allowed := ⟨false, false, false, false, true, false⟩

/-- The declarations of a text apart from their lines. -/
def unplacedFrom (r : Rules) (fuel : Nat) (cs : List Char) : Option (List Declaration) :=
  (declarationsFrom r fuel 0 cs).map (List.map Declaration.unplaced)

theorem map_unplaced_bind (first : Nat) (joins : List Declaration) (pieces : List Piece)
    (more : Option (List Declaration)) :
    (more.bind fun more => some (joins ++ pieces.map (declarationOf first) ++ more)).map (List.map Declaration.unplaced) =
      (more.map (List.map Declaration.unplaced)).map
        (joins.map Declaration.unplaced ++ pieces.map (declarationOf 0) ++ ·) := by
  cases more <;> simp [unplaced_declarationOf]

/-- The lines do not decide what the declarations are. -/
theorem unplaced_declarationsFrom (line : Nat) (cs : List Char) :
    (declarationsFrom r fuel line cs).map (List.map Declaration.unplaced) = unplacedFrom r fuel cs := by
  induction fuel generalizing line cs with
  | zero => rfl
  | succ fuel ih =>
    simp only [unplacedFrom, declarationsFrom]
    split
    · rfl
    · next start _ _ =>
      cases r.statement 0 start with
      | none => rfl
      | some x =>
        simp only [Option.bind_eq_bind, Option.bind_some]
        rw [map_unplaced_bind, map_unplaced_bind, ih, ih]
    · rfl

/-- The declarations of a text begin with those of its first statement. -/
theorem unplacedFrom_statement (hread : Layout.read top 0 false cs = ⟨[], .token start⟩) (hstart : startsToken start) :
    unplacedFrom r (fuel + 1) cs = (r.statement 0 start).bind fun x =>
      (unplacedFrom r fuel x.2).map (x.1.map (declarationOf 0) ++ ·) := by
  obtain ⟨c, cs', rfl⟩ : ∃ c cs', start = c :: cs' := by
    cases start with
    | nil => cases hstart
    | cons c cs' => exact ⟨c, cs', rfl⟩
  rw [top] at hread
  simp only [unplacedFrom, declarationsFrom, hread]
  cases r.statement 0 (c :: cs') with
  | none => rfl
  | some x =>
    simp only [Option.bind_eq_bind, Option.bind_some]
    rw [map_unplaced_bind, unplaced_declarationsFrom]
    rfl

/-- Blocks, each behind an empty line, and one more empty line. -/
def tailText : List (List Char) → List Char
  | [] => ['\n', '\n']
  | block :: blocks => '\n' :: '\n' :: (block ++ tailText blocks)

theorem length_lt_length_tailText (texts : List (List Char)) : texts.length < (tailText texts).length := by
  induction texts with
  | nil => simp [tailText]
  | cons text texts ih =>
    simp only [tailText, List.length_cons, List.length_append]
    omega

theorem length_le_length_tailText {text : List Char} {texts : List (List Char)} (h : text ∈ texts) :
    text.length ≤ (tailText texts).length := by
  induction texts with
  | nil => simp at h
  | cons first texts ih =>
    simp only [tailText, List.length_cons, List.length_append]
    rcases List.mem_cons.1 h with rfl | h
    · omega
    · have hle := ih h
      omega

variable {blocks : List (List Char × Option Declaration)}

theorem lineBreak_tailText (h : ∀ b ∈ blocks, r.ReadsBlock b.1 b.2) :
    ∃ start, LineBreak (tailText (blocks.map (·.1))) 0 start := by
  cases blocks with
  | nil => exact ⟨_, .outer (.inl rfl)⟩
  | cons b blocks =>
    exact ⟨_, .outer (.inr ((h b List.mem_cons_self).starts (tailText (blocks.map (·.1)))))⟩

/-- **Blocks are read one by one**, up to the first that is not. -/
theorem unplacedFrom_tailText (h : ∀ b ∈ blocks, r.ReadsBlock b.1 b.2) (hfuel : blocks.length < fuel) :
    unplacedFrom r fuel (tailText (blocks.map (·.1))) = blocks.mapM (·.2) := by
  induction blocks generalizing fuel with
  | nil =>
    obtain ⟨fuel, rfl⟩ := Nat.exists_eq_add_one.2 (Nat.zero_lt_of_lt hfuel)
    rfl
  | cons b blocks ih =>
    obtain ⟨fuel, rfl⟩ := Nat.exists_eq_add_one.2 (Nat.zero_lt_of_lt hfuel)
    obtain ⟨hb, hrest⟩ := List.forall_mem_cons.1 h
    obtain ⟨start, hbreak⟩ := lineBreak_tailText hrest
    have hstarts := hb.starts (tailText (blocks.map (·.1)))
    have hread : Layout.read top 0 false (tailText ((b :: blocks).map (·.1))) =
        ⟨[], .token (b.1 ++ tailText (blocks.map (·.1)))⟩ :=
      (LineBreak.outer (.inr hstarts)).read_token hstarts rfl fun _ => rfl
    have hstatement := hb.reads hbreak
    have hmore := ih hrest (show blocks.length < fuel by simpa using hfuel)
    rw [unplacedFrom_statement hread hstarts, List.mapM_cons]
    cases hs : r.statement 0 (b.1 ++ tailText (blocks.map (·.1))) with
    | none =>
      rw [hs] at hstatement
      simp [Option.map_eq_none_iff.1 hstatement.symm]
    | some x =>
      rw [hs, Option.map_some] at hstatement
      obtain ⟨d, hd, hx⟩ := Option.map_eq_some_iff.1 hstatement.symm
      obtain ⟨hpieces, hstop⟩ := Prod.mk.inj hx
      rw [Option.bind_some, ← hpieces, ← hstop, hmore, hd]
      cases blocks.mapM (·.2) <;> rfl

/-! ## The preamble -/

/-- The declaration of the type variable, with which the statements of the preamble end. -/
def variableLine : List Char := Generated.preamble[5].toList

/-- The second import and what follows it. -/
def fieldLines : List Char := Generated.preamble[3].toList ++ '\n' :: '\n' :: variableLine

/-- The first import and what follows it. -/
def importLines : List Char := Generated.preamble[2].toList ++ '\n' :: fieldLines

/-- The comments and what follows them. -/
def commentLines : List Char :=
  Generated.preamble[0].toList ++ '\n' :: (Generated.preamble[1].toList ++ '\n' :: importLines)

theorem preambleChars_eq : Generated.preambleChars = commentLines ++ ['\n', '\n'] := by
  have hlines : Generated.preamble = [Generated.preamble[0], Generated.preamble[1], Generated.preamble[2],
      Generated.preamble[3], "", Generated.preamble[5], ""] := rfl
  rw [Generated.preambleChars, hlines]
  simp [commentLines, importLines, fieldLines, variableLine]

/-- The comments are part of the blank space. -/
theorem read_commentLines (t : List Char) : Layout.read top 0 false (commentLines ++ t) =
    ⟨[], .token (importLines ++ t)⟩ := by
  have hcomment : ∀ {text rest : List Char}, '\n' ∉ text → ∀ {fuel : Nat},
      Layout.readFrom top 0 false (fuel + 1) ('#' :: (text ++ '\n' :: rest)) =
        Layout.readFrom top 0 false fuel ('\n' :: rest) := fun htext =>
    Layout.readFrom_of_comment rfl rfl rfl htext
  have hlater : ∀ {text rest : List Char}, '\n' ∉ text → ∀ {fuel : Nat},
      Layout.readFrom top 0 false (fuel + 1) ('\n' :: '#' :: (text ++ '\n' :: rest)) =
        Layout.readFrom top 0 false fuel ('\n' :: rest) := fun htext =>
    Layout.readFrom_of_comment rfl rfl rfl htext
  obtain ⟨first, second, hfirst, hsecond, htext⟩ : ∃ first second, '\n' ∉ first ∧ '\n' ∉ second ∧
      commentLines ++ t = '#' :: (first ++ '\n' :: '#' :: (second ++ '\n' :: (importLines ++ t))) :=
    ⟨Generated.preamble[0].toList.tail, Generated.preamble[1].toList.tail, by decide, by decide, rfl⟩
  obtain ⟨fuel, hfuel⟩ : ∃ fuel, (commentLines ++ t).length + 1 = fuel + 3 :=
    ⟨(commentLines ++ t).length - 2, by
      rw [htext]
      simp only [List.length_cons, List.length_append]
      omega⟩
  have himport : startsToken (importLines ++ t) := rfl
  rw [Layout.read, hfuel, htext, hcomment hfirst, hlater hsecond]
  exact (LineBreak.next himport).read_token himport rfl fun _ => rfl

theorem statement_importLines (t : List Char) : r.statement 0 (importLines ++ t) =
    some ([⟨.other, between (importLines ++ t) ('\n' :: (fieldLines ++ t))⟩], '\n' :: (fieldLines ++ t)) := rfl

theorem statement_fieldLines (t : List Char) : r.statement 0 (fieldLines ++ t) =
    some ([⟨.other, between (fieldLines ++ t) ('\n' :: '\n' :: (variableLine ++ t))⟩],
      '\n' :: '\n' :: (variableLine ++ t)) := rfl

theorem unplacedFrom_preamble {n : Nat} {t : List Char} (hn : 4 ≤ n) (ht : LineBreak t 0 start) :
    unplacedFrom (Rules.depth (n + 4)) (fuel + 3) (commentLines ++ t) =
      (unplacedFrom (Rules.depth (n + 4)) fuel t).map ([.other, .other, .other] ++ ·) := by
  have hvariable : (Rules.depth (n + 4)).statement 0 (variableLine ++ t) = some ([⟨.other, _⟩], t) :=
    Rules.statement_typeVariable hn ht
  have himport : startsToken (importLines ++ t) := rfl
  have hfield : startsToken (fieldLines ++ t) := rfl
  have hline : startsToken (variableLine ++ t) := rfl
  have hsecond : Layout.read top 0 false ('\n' :: (fieldLines ++ t)) = ⟨[], .token (fieldLines ++ t)⟩ :=
    (LineBreak.next hfield).read_token hfield rfl fun _ => rfl
  have hthird : Layout.read top 0 false ('\n' :: '\n' :: (variableLine ++ t)) = ⟨[], .token (variableLine ++ t)⟩ :=
    (LineBreak.outer (.inr hline)).read_token hline rfl fun _ => rfl
  rw [unplacedFrom_statement (read_commentLines t) himport, statement_importLines, Option.bind_some,
    unplacedFrom_statement hsecond hfield, statement_fieldLines, Option.bind_some,
    unplacedFrom_statement hthird hline, hvariable, Option.bind_some]
  cases unplacedFrom (Rules.depth (n + 4)) fuel t <;> rfl

end Source

/-! ## The module -/

/-- What was generated is legible. -/
structure Generated.Legible (g : Generated) : Prop where
  records : ∀ c ∈ g.records.values, c.Legible
  functions : ∀ f ∈ g.functions.values, f.Legible

namespace Generated

variable {g : Generated}

/-- The blocks behind the preamble, each with the declaration that it is read as. -/
def blocks (g : Generated) : List (List Char × Option Declaration) :=
  g.records.values.map (fun c => (c.source.toList, some (Declaration.ofClass c).unplaced)) ++
    g.functions.values.map fun f => (f.blockChars, f.typed.map fun f => (Declaration.ofFunction f).unplaced)

theorem flatMap_blocks (texts : List (List Char)) :
    ['\n', '\n'] ++ texts.flatMap (· ++ ['\n', '\n']) = Source.tailText texts := by
  induction texts with
  | nil => rfl
  | cons text texts ih => simp [Source.tailText, ← ih]

theorem chars_eq_tailText (hlegible : g.Legible) (hforwards : ∀ f ∈ g.functions.values, f.Forwards) :
    g.chars = Source.commentLines ++ Source.tailText (g.blocks.map (·.1)) := by
  have hrecords : ∀ c ∈ g.records.values, recordChars c = c.source.toList ++ ['\n', '\n'] := fun c hc => by
    rw [recordChars, (hlegible.records c hc).endsVisibly.trimEnd_eq]
  have hfunctions : ∀ f ∈ g.functions.values, functionChars f = f.blockChars ++ ['\n', '\n'] := fun f hf => by
    rw [functionChars, Function.chars_of_forwards (hforwards f hf), List.append_assoc]
    rfl
  rw [chars, ← flatMap_blocks, Source.preambleChars_eq, List.flatMap_congr hrecords, List.flatMap_congr hfunctions]
  simp [blocks, List.flatMap_map]

/-- The blocks of a legible module are read as their declarations. -/
theorem readsBlock_of_mem (hlegible : g.Legible) (hforwards : ∀ f ∈ g.functions.values, f.Forwards) {n length : Nat}
    (hlength : 3 * length + 4 ≤ n) {b : List Char × Option Declaration} (hb : b ∈ g.blocks) (hle : b.1.length ≤ length) :
    (Rules.depth (n + 1)).ReadsBlock b.1 b.2 := by
  simp only [blocks, List.mem_append, List.mem_map] at hb
  rcases hb with ⟨c, hc, rfl⟩ | ⟨f, hf, rfl⟩
  · have hstatement {rest start : List Char} (hrest : LineBreak rest 0 start) :=
      Class.statement_source (n := n) (hlegible.records c hc) (by simp only at hle; omega) hrest
    refine ⟨fun t => ?_, fun hrest => ?_⟩
    · obtain ⟨written, -, -, htext⟩ := (hlegible.records c hc).source_eq
      rw [htext]
      rfl
    · simp [hstatement hrest, Source.declarationOf, Declaration.unplaced]
  · have hstatement {rest start : List Char} (hrest : LineBreak rest 0 start) :=
      Function.statement_blockChars (n := n) (hlegible.functions f hf) (hforwards f hf) (by simp only at hle; omega) hrest
    refine ⟨fun t => rfl, fun hrest => ?_⟩
    rw [hstatement hrest]
    simp [Function.comp_def, Source.declarationOf, Declaration.unplaced]

theorem mapM_map_eq (f : α → Option β) (k : β → γ) (xs : List α) :
    (xs.mapM fun x => (f x).map k) = (xs.mapM f).map (List.map k) := by
  induction xs with
  | nil => rfl
  | cons x xs ih =>
    rw [List.mapM_cons, List.mapM_cons, ih]
    cases f x <;> cases xs.mapM f <;> rfl

theorem mapM_blocks (g : Generated) : g.blocks.mapM (·.2) = (g.functions.values.mapM Function.typed).map fun fs =>
    (g.records.values.map .ofClass ++ fs.map .ofFunction).map Declaration.unplaced := by
  have hrecords : ∀ cs : List Class, (cs.map fun c => (c.source.toList, some (Declaration.ofClass c).unplaced)).mapM
      (·.2) = some (cs.map fun c => (Declaration.ofClass c).unplaced) := fun cs => by
    rw [List.mapM_map]
    exact List.mapM_pure
  rw [blocks, List.mapM_append, hrecords, List.mapM_map]
  simp only [Function.comp_def, mapM_map_eq]
  cases g.functions.values.mapM Function.typed <;> simp [Function.comp_def]

/-- What a module declares: the statements of the preamble, the records and the functions. -/
def moduleDeclarations (cs : List Class) (fs : List Function) : List Declaration :=
  [.other, .other, .other] ++ (cs.map .ofClass ++ fs.map .ofFunction)

/-- **A legible module is read** as its records and functions behind the three statements of the preamble, with its
types as they are read. -/
theorem parse?_chars (hlegible : g.Legible) (hforwards : ∀ f ∈ g.functions.values, f.Forwards) :
    (Source.parse? g.chars).map (List.map Declaration.unplaced) =
      (g.functions.values.mapM Function.typed).map fun fs =>
        (moduleDeclarations g.records.values fs).map Declaration.unplaced := by
  have hchars := chars_eq_tailText hlegible hforwards
  have hsize : g.chars.length = Source.commentLines.length + (Source.tailText (g.blocks.map (·.1))).length := by
    rw [hchars, List.length_append]
  have hcomments : 2 ≤ Source.commentLines.length := by
    simp only [Source.commentLines, List.length_append, List.length_cons]
    omega
  have hle : ∀ b ∈ g.blocks, b.1.length ≤ g.chars.length := fun b hb => by
    have hle := Source.length_le_length_tailText (List.mem_map_of_mem (f := (·.1)) hb)
    omega
  obtain ⟨n, hn⟩ : ∃ n, Source.depthOf g.chars = n + 4 := ⟨Source.depthOf g.chars - 4, by simp [Source.depthOf]⟩
  have hblocks : ∀ b ∈ g.blocks, (Rules.depth (n + 4)).ReadsBlock b.1 b.2 := fun b hb =>
    readsBlock_of_mem hlegible hforwards (by simp [Source.depthOf] at hn; omega) hb (hle b hb)
  obtain ⟨start, hbreak⟩ := Source.lineBreak_tailText hblocks
  obtain ⟨fuel, hfuel, hcount⟩ : ∃ fuel, g.chars.length + 1 = fuel + 3 ∧ g.blocks.length < fuel := by
    have hlt := Source.length_lt_length_tailText (g.blocks.map (·.1))
    rw [List.length_map] at hlt
    exact ⟨g.chars.length - 2, by omega, by omega⟩
  rw [Source.parse?, Source.unplaced_declarationsFrom, hn, hfuel, hchars,
    Source.unplacedFrom_preamble (by simp [Source.depthOf] at hn; omega) hbreak,
    Source.unplacedFrom_tailText hblocks hcount, mapM_blocks, Option.map_map]
  rfl

end Generated
end PluginTools
