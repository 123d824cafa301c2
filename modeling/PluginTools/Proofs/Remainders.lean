/-
What is left of a source when a part of it has been read. Between two tokens stands blank space only (`Skips`), and a
reading that goes on from a place of a source stops at a place further on (`Yields`, of readings whose rest is an end
of the source).
-/
import Mathlib.Data.List.Infix
import PluginTools.Source.Place
import PluginTools.Source.Quotation

namespace PluginTools

theorem suffix_of_cons {c : Char} {cs S : List Char} (h : c :: cs <:+ S) : cs <:+ S := (List.suffix_cons c cs).trans h

/-! ## Blank space -/

namespace Layout

/-- Blank space between two places: white space, comments, and joins. -/
inductive Skips : List Char → List Char → Prop
  | refl (cs : List Char) : Skips cs cs
  | space {c : Char} {cs rest : List Char} : isSpace c → Skips cs rest → Skips (c :: cs) rest
  | comment {cs rest : List Char} : Skips (cs.dropWhile (· != '\n')) rest → Skips ('#' :: cs) rest
  | join {cs rest : List Char} : Skips cs rest → Skips ('\\' :: '\n' :: cs) rest
  | returnJoin {cs rest : List Char} : Skips cs rest → Skips ('\\' :: '\r' :: '\n' :: cs) rest
  | lastJoin : Skips ['\\'] []

/-- The text that a mark leads to. -/
def Mark.left? : Mark → Option (List Char)
  | .token rest | .newline rest | .indent _ rest | .dedent rest => some rest
  | .stuck => none

section

variable {S cs ds rest : List Char}

theorem Skips.suffix (h : Skips cs rest) : rest <:+ cs := by
  induction h with
  | refl cs => exact List.suffix_rfl
  | space _ _ ih => exact ih.trans (List.suffix_cons _ _)
  | comment _ ih => exact (ih.trans (List.dropWhile_suffix _)).trans (List.suffix_cons _ _)
  | join _ ih => exact ih.trans ⟨['\\', '\n'], rfl⟩
  | returnJoin _ ih => exact ih.trans ⟨['\\', '\r', '\n'], rfl⟩
  | lastJoin => exact List.nil_suffix

theorem Skips.of_dropWhile (h : Skips (cs.dropWhile isSpace) rest) : Skips cs rest := by
  induction cs with
  | nil => exact h
  | cons c cs ih =>
    rw [List.dropWhile_cons] at h
    split at h
    · next hc => exact .space hc (ih h)
    · exact h

theorem Skips.of_join? {join : String} (hjoin : join? cs = some (join, ds)) (h : Skips ds rest) : Skips cs rest := by
  unfold join? at hjoin
  split at hjoin <;> cases hjoin
  · exact h.join
  · exact h.returnJoin
  · cases h
    exact .lastJoin

/-- What a margin leaves, unless it is nothing, stands behind blank space only. -/
theorem skips_of_margin {comments inComment : Bool} {m m' : Margin}
    (h : Margin.read comments inComment m cs = some m') (hrest : m'.rest ≠ []) :
    Skips (if inComment then cs.dropWhile (· != '\n') else cs) m'.rest := by
  fun_induction Margin.read comments inComment m cs with
  | case1 | case6 | case7 => exact absurd (by cases h; rfl) hrest
  -- in a comment, up to the end of its line
  | case2 _ _ ih => exact .space rfl (ih h)
  | case3 _ c _ hc ih =>
    simp only [↓reduceIte, List.dropWhile_cons, bne_iff_ne, ne_eq, hc, not_false_eq_true] at ih ⊢
    exact ih h
  | case4 _ _ ih => exact .join (ih h)
  | case5 _ _ ih => exact .returnJoin (ih h)
  -- blank space of a line
  | case8 | case9 | case10 => exact .space rfl (by rename_i ih; exact ih h)
  | case11 _ c _ _ _ _ _ _ _ _ hc ih => exact .space (by rcases hc with rfl | rfl <;> rfl) (ih h)
  | case12 _ c _ _ _ _ _ _ _ _ _ hc _ ih => exact hc.1 ▸ .comment (ih h)
  | case13 | case14 => cases h
  | case15 =>
    cases h
    exact .refl _

theorem skips_of_boundary? {a : Allowed} {column : Nat} {quiet : Bool} {m : Margin} {mark : Mark}
    (hmargin : m.rest ≠ [] → Skips cs m.rest) (h : boundary? a column quiet cs m = some mark)
    (hleft : mark.left? = some rest) : Skips cs rest := by
  unfold boundary? at h
  split at h
  · cases h; cases hleft; exact .refl cs
  · split at h
    · cases h; cases hleft; exact .refl cs
    · split at h
      · cases h; cases hleft; exact .refl cs
      · split at h
        · next hstring =>
          cases h
          cases hleft
          refine hmargin fun hnil => ?_
          simp [hnil, startsString, startsQuote] at hstring
        · cases h

/-- What blank space leads to stands behind it. -/
theorem skips_of_readFrom {a : Allowed} {column fuel : Nat} {quiet : Bool}
    (h : (readFrom a column quiet fuel cs).mark.left? = some rest) : Skips cs rest := by
  induction fuel generalizing cs with
  | zero => cases h
  | succ fuel ih =>
    rw [readFrom] at h
    dsimp only at h
    split at h
    · next mark hmark =>
      obtain ⟨m, hm, hmark⟩ := Option.bind_eq_some_iff.1 hmark
      exact skips_of_boundary? (fun hrest => skips_of_margin hm hrest) hmark h
    · refine .of_dropWhile ?_
      split at h
      · next hjoin => exact .of_join? hjoin (ih h)
      · generalize hstart : cs.dropWhile isSpace = start at h ⊢
        split at h
        · next hhead =>
          obtain ⟨c, start, rfl⟩ : ∃ c ds, start = c :: ds := by
            cases start with
            | nil => cases hhead
            | cons c ds => exact ⟨c, ds, rfl⟩
          obtain rfl : c = '#' := by simpa using hhead
          exact .comment (ih h)
        · split at h
          · cases h
          · cases h
            exact .refl _

theorem skips_of_read {a : Allowed} {column : Nat} {quiet : Bool} {gap : Gap} (h : read a column quiet cs = gap)
    (hleft : gap.mark.left? = some rest) : Skips cs rest :=
  skips_of_readFrom (by rw [← h] at hleft; exact hleft)

/-- What blank space leads to is a place further on. -/
theorem suffix_of_read {a : Allowed} {column : Nat} {quiet : Bool} {gap : Gap} (h : read a column quiet cs = gap)
    (hleft : gap.mark.left? = some rest) (hcs : cs <:+ S) : rest <:+ S :=
  (skips_of_read h hleft).suffix.trans hcs

end

end Layout

/-! ## Readings -/

namespace Reading

/-- Whatever a reading gives has a property. -/
def Yields (P : α → Prop) (o : Option α) : Prop := ∀ a, o = some a → P a

namespace Yields

variable {P : α → Prop} {Q : β → Prop} {o o' : Option α} {a : α} {f : α → Option β} {g : α → β}

theorem none : Yields P .none := fun _ h => nomatch h

theorem some (h : P a) : Yields P (.some a) := fun _ ha => Option.some.inj ha ▸ h

theorem any (o : Option α) : Yields (fun _ => True) o := fun _ _ => trivial

theorem bind (h : Yields P o) (hf : ∀ a, P a → Yields Q (f a)) : Yields Q (o.bind f) := fun b hb => by
  obtain ⟨a, ha, hb⟩ := Option.bind_eq_some_iff.1 hb
  exact hf a (h a ha) b hb

theorem map (h : Yields P o) (hg : ∀ a, P a → Q (g a)) : Yields Q (o.map g) := fun b hb => by
  obtain ⟨a, ha, rfl⟩ := Option.map_eq_some_iff.1 hb
  exact hg a (h a ha)

theorem mono {P' : α → Prop} (h : Yields P o) (hP : ∀ a, P a → P' a) : Yields P' o := fun a ha => hP a (h a ha)

theorem filter (h : Yields P o) (keep : α → Bool) : Yields P (o.filter keep) := fun a ha => h a (Option.filter_eq_some_iff.1 ha).1

theorem or (h : Yields P o) (h' : Yields P o') : Yields P (o.or o') := by
  cases o with
  | none => exact h'
  | some a => exact h

theorem getD (h : Yields P o) (ha : P a) : P (o.getD a) := by
  cases o with
  | none => exact ha
  | some b => exact h b rfl

theorem ite {c : Prop} [Decidable c] (h : Yields P o) (h' : Yields P o') : Yields P (if c then o else o') := by
  split
  · exact h
  · exact h'

/-- The text that is left, of a reading that also gives a value. -/
theorem snd {S : List Char} {o : Option (α × List Char)} (h : Yields (·.2 <:+ S) o) : Yields (· <:+ S) (o.map Prod.snd) :=
  h.map fun _ h => h

end Yields

variable {step : α → List Char → Option (α × List Char)} {a : α} {cs : List Char}

/-- What a step keeps, a repeated step keeps. -/
theorem repeated_induct {I : α → List Char → Prop}
    (hstep : ∀ a cs, I a cs → Yields (fun x => I x.1 x.2) (step a cs)) (h : I a cs) :
    I (repeated step a cs).1 (repeated step a cs).2 := by
  have key : ∀ fuel a cs, I a cs → I (iterate step fuel a cs).1 (iterate step fuel a cs).2 := by
    intro fuel
    induction fuel with
    | zero => exact fun _ _ h => h
    | succ fuel ih =>
      intro a cs h
      rw [iterate]
      split
      · next hread => exact ih _ _ (hstep a cs h _ hread)
      · exact h
  exact key _ _ _ h

end Reading

open Reading (Yields)

/-! ## Words -/

section

variable {S cs : List Char}

theorem Word.yields_read? (hcs : cs <:+ S) : Yields (·.2 <:+ S) (read? cs) := by
  cases cs with
  | nil => exact .none
  | cons c cs =>
    rw [read?, List.span_eq_takeWhile_dropWhile]
    exact .ite (.some ((List.dropWhile_suffix _).trans (suffix_of_cons hcs))) .none

theorem Word.yields_after? (word : String) (hcs : cs <:+ S) : Yields (· <:+ S) (after? word cs) :=
  (yields_read? hcs).bind fun _ hrest => .ite (.some hrest) .none

/-! ## Tokens -/

namespace Place

open Layout (Skips)

variable {p q : Place} {rest : List Char}

theorem skips_of_token? {quote : Bool} {joins : List String} (h : p.token? quote cs = some (joins, rest)) :
    Skips cs rest := by
  unfold token? at h
  split at h
  · next hgap =>
    cases h
    exact Layout.skips_of_read hgap rfl
  · cases h

theorem skips_of_operand? (h : p.operand? cs = some rest) : Skips cs rest := by
  obtain ⟨⟨joins, rest⟩, htoken, rfl⟩ := Option.map_eq_some_iff.1 h
  exact skips_of_token? htoken

theorem skips_of_mark? {mark : Char} {joins : List String} (h : p.mark? mark cs = some (joins, rest)) :
    Skips cs (mark :: rest) := by
  unfold mark? at h
  split at h
  · next htoken =>
    split at h
    · next hc =>
      cases h
      exact hc ▸ skips_of_token? htoken
    · cases h
  · cases h

theorem yields_token? (p : Place) (quote : Bool) (hcs : cs <:+ S) : Yields (·.2 <:+ S) (p.token? quote cs) :=
  fun _ h => (skips_of_token? h).suffix.trans hcs

theorem yields_next? (p : Place) (hcs : cs <:+ S) : Yields (· <:+ S) (p.next? cs) :=
  (p.yields_token? false hcs).snd

theorem yields_operand? (p : Place) (hcs : cs <:+ S) : Yields (· <:+ S) (p.operand? cs) :=
  (p.yields_token? true hcs).snd

theorem yields_mark? (p : Place) (mark : Char) (hcs : cs <:+ S) : Yields (·.2 <:+ S) (p.mark? mark cs) :=
  fun _ h => (List.suffix_cons mark _).trans ((skips_of_mark? h).suffix.trans hcs)

theorem yields_after? (p : Place) (mark : Char) (hcs : cs <:+ S) : Yields (· <:+ S) (p.after? mark cs) :=
  (p.yields_mark? mark hcs).snd

theorem yields_word? (p : Place) (word : String) (hcs : cs <:+ S) : Yields (· <:+ S) (p.word? word cs) :=
  (p.yields_next? hcs).bind fun _ => Word.yields_after? word

theorem yields_name? (p : Place) (hcs : cs <:+ S) : Yields (·.2 <:+ S) (p.name? cs) :=
  (p.yields_next? hcs).bind fun _ h => (Word.yields_read? h).bind fun _ hrest => .some hrest

theorem yields_ended? (p : Place) (hcs : cs <:+ S) : Yields (· <:+ S) (p.ended? cs) := by
  intro rest h
  unfold ended? at h
  split at h
  · next hmark =>
    cases h
    exact Layout.suffix_of_read (show p.ending.gap false cs = _ from rfl) (by rw [hmark]; rfl) hcs
  · cases h

/-! ## Lists -/

theorem optionalComma_suffix (p : Place) (hcs : cs <:+ S) : p.optionalComma cs <:+ S := (p.yields_after? ',' hcs).getD hcs

theorem yields_close? (p : Place) (mark : Char) (hcs : cs <:+ S) : Yields (·.2 <:+ S) (p.close? mark cs) :=
  (p.yields_mark? mark ((p.yields_mark? ',' hcs).getD (a := ([], cs)) hcs)).map fun _ h => h

variable {P : α → Prop} {j : String → List α} {f : List Char → Option (α × List Char)}

/-- One more element behind its comma, with what becomes of the joins. -/
theorem yields_element (p q : Place) (hj : ∀ text, ∀ x ∈ j text, P x)
    (hf : ∀ cs, cs <:+ S → Yields (fun x => P x.1 ∧ x.2 <:+ S) (f cs)) (hcs : cs <:+ S) :
    Yields (fun x => (∀ y ∈ x.1, P y) ∧ x.2 <:+ S) (do
      let (before, rest) ← p.mark? ',' cs
      let (behind, start) ← q.token? true rest
      let (x, rest) ← f start
      some ((before ++ behind).flatMap j ++ [x], rest)) := by
  refine (p.yields_mark? ',' hcs).bind fun ⟨before, rest⟩ hrest => ?_
  refine (q.yields_token? true hrest).bind fun ⟨behind, start⟩ hstart => ?_
  refine (hf start hstart).bind fun ⟨x, rest⟩ hx => .some ⟨?_, hx.2⟩
  intro y hy
  rcases List.mem_append.1 hy with hy | hy
  · obtain ⟨text, -, hy⟩ := List.mem_flatMap.1 hy
    exact hj text y hy
  · exact List.mem_singleton.1 hy ▸ hx.1

/-- What every element has, all elements of a list have. -/
theorem elements_induct (p q : Place) (fuel : Nat) (hj : ∀ text, ∀ x ∈ j text, P x)
    (hf : ∀ cs, cs <:+ S → Yields (fun x => P x.1 ∧ x.2 <:+ S) (f cs)) (hcs : cs <:+ S) :
    (∀ x ∈ (p.elements q j f fuel cs).1, P x) ∧ (p.elements q j f fuel cs).2 <:+ S := by
  induction fuel generalizing cs with
  | zero => exact ⟨List.forall_mem_nil _, hcs⟩
  | succ fuel ih =>
    rw [elements]
    dsimp only
    split
    · next h =>
      obtain ⟨hxs, hrest⟩ := yields_element p q hj hf hcs _ h
      obtain ⟨hys, hstop⟩ := ih hrest
      exact ⟨fun x hx => (List.mem_append.1 hx).elim (hxs x) (hys x), hstop⟩
    · exact ⟨List.forall_mem_nil _, hcs⟩

theorem items_induct (p q : Place) (hf : ∀ cs, cs <:+ S → Yields (fun x => P x.1 ∧ x.2 <:+ S) (f cs)) (hcs : cs <:+ S) :
    (∀ x ∈ (p.items q f cs).1, P x) ∧ (p.items q f cs).2 <:+ S :=
  elements_induct p q _ (fun _ _ h => by cases h) hf hcs

theorem items_suffix (p q : Place) (hf : ∀ cs, cs <:+ S → Yields (·.2 <:+ S) (f cs)) (hcs : cs <:+ S) :
    (p.items q f cs).2 <:+ S :=
  (items_induct (P := fun _ => True) p q (fun cs hcs => (hf cs hcs).mono fun _ h => ⟨trivial, h⟩) hcs).2

theorem yields_list? (p : Place) (hf : ∀ cs, cs <:+ S → Yields (fun x => P x.1 ∧ x.2 <:+ S) (f cs)) (hcs : cs <:+ S) :
    Yields (fun x => (∀ y ∈ x.1, P y) ∧ x.2 <:+ S) (p.list? f cs) :=
  (hf cs hcs).map fun _ hx =>
    have hmore := items_induct p p hf hx.2
    ⟨List.forall_mem_cons.2 ⟨hx.1, hmore.1⟩, hmore.2⟩

theorem yields_list?_rest (p : Place) (hf : ∀ cs, cs <:+ S → Yields (·.2 <:+ S) (f cs)) (hcs : cs <:+ S) :
    Yields (·.2 <:+ S) (p.list? f cs) :=
  (hf cs hcs).map fun _ hx => items_suffix p p hf hx

end Place

/-! ## Strings -/

namespace Quotation

open Layout (isQuotePrefix)

/-- The text that a run leads to. -/
def Run.left? : Run → Option (List Char)
  | .more rest | .closed rest => some rest
  | .broken => none

variable {q : Quotation} {rest : List Char}

theorem yields_open? (hcs : cs <:+ S) : Yields (·.2 <:+ S) (open? cs) := by
  have hletters := (List.dropWhile_suffix (l := cs) isQuotePrefix).trans hcs
  unfold open?
  dsimp only
  split
  · exact .none
  · next c rest h =>
    have hrest : rest <:+ S := suffix_of_cons (h ▸ hletters)
    refine .ite (.some ?_) .none
    dsimp only
    split
    · exact (List.drop_suffix 2 rest).trans hrest
    · exact hrest

theorem suffix_of_lineEnd (hcs : cs <:+ S) : (match cs with
    | '\r' :: '\n' :: rest => rest
    | '\r' :: rest => rest
    | '\n' :: rest => rest
    | rest => rest) <:+ S := by
  split
  · exact suffix_of_cons (suffix_of_cons hcs)
  · exact suffix_of_cons hcs
  · exact suffix_of_cons hcs
  · exact hcs

theorem afterRaw_suffix (hcs : cs <:+ S) : q.afterRaw cs <:+ S := by
  unfold afterRaw
  refine suffix_of_lineEnd ?_
  split
  · split
    · exact suffix_of_cons hcs
    · exact hcs
  · exact hcs

theorem suffix_of_tripled {filled : Bool} {start : List Char} (hstart : start <:+ S) (hcs : cs <:+ S)
    (h : (q.tripled filled start cs).left? = some rest) : rest <:+ S := by
  unfold tripled at h
  split at h
  · split at h <;> cases h
    · exact hstart
    · exact (List.drop_suffix 2 cs).trans hcs
  · cases h
    split
    · exact (List.drop_suffix 1 cs).trans hcs
    · exact hcs

theorem suffix_of_run {fuel : Nat} {filled : Bool} (hcs : cs <:+ S) (h : (q.run fuel filled cs).left? = some rest) :
    rest <:+ S := by
  induction fuel generalizing filled cs with
  | zero => cases h
  | succ fuel ih =>
    cases cs with
    | nil => cases h
    | cons c cs =>
      have hrest := suffix_of_cons hcs
      rw [run] at h
      split at h
      · split at h <;> cases h
        exact hcs
      · split at h
        · exact ih (afterRaw_suffix hrest) h
        · split at h
          · split at h
            · exact ih ((List.drop_suffix 2 cs).trans hrest) h
            · split at h <;> cases h
              exact hcs
          · split at h
            · split at h
              · exact suffix_of_tripled hcs hrest h
              · split at h <;> cases h
                · exact hcs
                · exact hrest
            · split at h
              · cases h
              · exact ih hrest h

theorem suffix_of_afterBraces? (hcs : cs <:+ S) (h : q.afterBraces? cs = some rest) : rest <:+ S := by
  unfold afterBraces? at h
  split at h
  · split at h <;> cases h
    exact suffix_of_cons (suffix_of_cons hcs)
  · split at h <;> cases h
    exact suffix_of_cons (suffix_of_cons hcs)
  · cases h

theorem suffix_of_join? {join : String} (hcs : cs <:+ S) (h : Layout.join? cs = some (join, rest)) : rest <:+ S :=
  (Layout.Skips.of_join? h (.refl rest)).suffix.trans hcs

theorem yields_close? {interpolation : List Char → Option (List Char)}
    (hinterpolation : ∀ cs, cs <:+ S → Yields (· <:+ S) (interpolation cs)) {filled : Bool} (fuel : Nat) (hcs : cs <:+ S) :
    Yields (·.2 <:+ S) (q.close? interpolation fuel filled cs) := by
  induction fuel generalizing filled cs with
  | zero => exact .none
  | succ fuel ih =>
    rw [close?.eq_def]
    dsimp only
    split
    · next h => exact ih (suffix_of_afterBraces? hcs h)
    · split
      · next hrun => exact .some (suffix_of_run hcs (by rw [hrun]; rfl))
      · next hrun => exact ih (suffix_of_run hcs (by rw [hrun]; rfl))
      · split
        · next rest _ _ => exact ih ((List.drop_suffix _ rest).trans (suffix_of_cons hcs))
        · have hstart := (List.dropWhile_suffix Layout.isSpace (l := cs)).trans hcs
          split
          · next hjoin => exact ih (suffix_of_join? hstart hjoin)
          · split
            · next rest heq =>
              exact (hinterpolation rest (suffix_of_cons (heq ▸ hstart))).bind fun _ => ih
            · next rest heq =>
              exact ih ((List.dropWhile_suffix _).trans (suffix_of_cons (heq ▸ hstart)))
            · exact .none

/-- A string ends further on. -/
theorem yields_read? {interpolation : List Char → Option (List Char)}
    (hinterpolation : ∀ cs, cs <:+ S → Yields (· <:+ S) (interpolation cs)) (hcs : cs <:+ S) :
    Yields (·.2 <:+ S) (read? interpolation cs) := by
  unfold read?
  split
  · next h => exact yields_close? hinterpolation _ (yields_open? hcs _ h)
  · exact .none

end Quotation

end

end PluginTools
