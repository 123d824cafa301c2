/-
A quoted text reads back. Whatever a text holds, the literal that `quote` or `docstring` writes for it ends,
to a reader of the source, exactly where it was written to end, has nothing interpolated, and stands for the
text.
-/
import PluginTools.Proofs.Tokens
import PluginTools.Source.Quotation

namespace PluginTools

namespace Quoted

/-! ## Escapes -/

theorem quoteFor_eq (cs : List Char) : quoteFor cs = '\x27' ∨ quoteFor cs = '\x22' := by
  unfold quoteFor
  split
  · exact .inr rfl
  · exact .inl rfl

/-- The text of one character is that character alone, or a backslash with more behind it. -/
inductive Escaped (quote c : Char) : List Char → Prop
  | plain (hslash : c ≠ '\\') (hline : c ≠ '\n') (hquote : c ≠ quote) : Escaped quote c [c]
  | letter (l : Char) (h : simpleEscape? l = some c) (hl : l ∈ ['\\', 'n', 'r', 't', quote]) :
    Escaped quote c ['\\', l]
  | code (h : isControl c) : Escaped quote c ['\\', 'x', hexDigit (c.toNat / 16), hexDigit (c.toNat % 16)]

theorem escaped_escape {quote : Char} (hquote : quote = '\x27' ∨ quote = '\x22') (c : Char) :
    Escaped quote c (escape quote c) := by
  unfold escape
  split
  · next h => exact .letter _ (by rw [h]; rfl) (by simp)
  · next hslash =>
    split
    · next h => exact .letter _ (by rw [h]; rfl) (by simp)
    · next hline =>
      split
      · next h => exact .letter _ (by rw [h]; rfl) (by simp)
      · split
        · next h => exact .letter _ (by rw [h]; rfl) (by simp)
        · split
          · next h =>
            subst h
            refine .letter _ ?_ (by simp)
            rcases hquote with rfl | rfl <;> rfl
          · next hne =>
            split
            · next h => exact .code h
            · exact .plain hslash hline hne

theorem codeEscape_hexDigits {c : Char} (h : isControl c) :
    codeEscape 'x' 2 [hexDigit (c.toNat / 16), hexDigit (c.toNat % 16)] = [c] := by
  have hall : ∀ n < 128, isControl (Char.ofNat n) →
      codeEscape 'x' 2 [hexDigit ((Char.ofNat n).toNat / 16), hexDigit ((Char.ofNat n).toNat % 16)] =
        [Char.ofNat n] := by decide
  have hlt : c.toNat < 128 := by
    simp only [isControl, Bool.or_eq_true, decide_eq_true_eq, beq_iff_eq] at h
    omega
  simpa [Char.ofNat_toNat] using hall c.toNat hlt (by simpa [Char.ofNat_toNat] using h)

theorem isSome_digitValue?_hexDigit {n : Nat} (h : n < 16) : (Number.digitValue? (hexDigit n)).isSome := by
  have hall : ∀ n < 16, (Number.digitValue? (hexDigit n)).isSome := by decide
  exact hall n h

theorem decodeFrom_escaped {quote c : Char} {e : List Char} (h : Escaped quote c e) (t : List Char) :
    decodeFrom 0 (e ++ t) = c :: decodeFrom 0 t := by
  cases h with
  | plain hslash =>
    cases t <;> simp [decodeFrom, hslash]
  | letter l h hl =>
    have hline : l ≠ '\n' := by
      rintro rfl
      simp [simpleEscape?] at h
    simp [decodeFrom, hline, h]
  | code h =>
    simp [decodeFrom, simpleEscape?, codeWidth?, codeEscape_hexDigits h]

theorem decode_flatMap_escape {quote : Char} (hquote : quote = '\x27' ∨ quote = '\x22') (s : List Char) :
    decode (s.flatMap (escape quote)) = s := by
  unfold decode
  induction s with
  | nil => rfl
  | cons c s ih => rw [List.flatMap_cons, decodeFrom_escaped (escaped_escape hquote c), ih]

theorem decodeFrom_plain {s : List Char} (h : '\\' ∉ s) : decodeFrom 0 s = s := by
  induction s with
  | nil => rfl
  | cons c s ih =>
    simp only [List.mem_cons, not_or] at h
    have hc : c ≠ '\\' := Ne.symm h.1
    cases s <;> simp_all [decodeFrom]

/-! ## The literal of a quoted text -/

theorem between?_self (d body : List Char) : between? d (d ++ (body ++ d)) = some body := by
  have hprefix : d.isPrefixOf (d ++ (body ++ d)) := List.isPrefixOf_iff_prefix.2 (List.prefix_append _ _)
  have hsuffix : d.isSuffixOf (body ++ d) := List.isSuffixOf_iff_suffix.2 (List.suffix_append _ _)
  simp [between?, hprefix, hsuffix]

theorem between?_of_not_prefix {d cs : List Char} (h : d.isPrefixOf cs = false) : between? d cs = none := by
  simp [between?, h]

theorem between?_of_head_ne {c d : Char} (h : c ≠ d) (cs ds : List Char) : between? (c :: cs) (d :: ds) = none :=
  between?_of_not_prefix (by simp [List.isPrefixOf, h])

/-- A quoted text does not open with three of its marks. -/
theorem not_tripled {mark : Char} (hmark : mark = '\x27' ∨ mark = '\x22') (s : List Char) {rest : List Char}
    (hrest : rest.head? ≠ some mark) : [mark, mark].isPrefixOf (s.flatMap (escape mark) ++ mark :: rest) = false := by
  cases s with
  | nil =>
    cases rest with
    | nil => simp [List.isPrefixOf]
    | cons d rest =>
      have hne : mark ≠ d := fun h => hrest (by simp [h])
      simp [List.isPrefixOf, hne]
  | cons c s =>
    have hslash : mark ≠ '\\' := by rcases hmark with rfl | rfl <;> decide
    have hescaped := escaped_escape hmark c
    rw [List.flatMap_cons]
    generalize escape mark c = e at hescaped
    cases hescaped with
    | plain _ _ hne => simp [List.isPrefixOf, Ne.symm hne]
    | letter => simp [List.isPrefixOf, hslash]
    | code => simp [List.isPrefixOf, hslash]

theorem literal?_of_found {mark : Char} (hmark : mark = '\x27' ∨ mark = '\x22') {t body : List Char}
    (h : delimiters.findSome? (between? · (mark :: t)) = some body) : literal? (mark :: t) = some (decode body) := by
  rcases hmark with rfl | rfl <;> simp [literal?, h]

theorem literal?_quote (s : List Char) : literal? (quote s) = some s := by
  have hmark := quoteFor_eq s
  have hself := between?_self [quoteFor s] (s.flatMap (escape (quoteFor s)))
  have htriple := not_tripled hmark s (show ([] : List Char).head? ≠ some (quoteFor s) by simp)
  have hfence : between? [quoteFor s, quoteFor s, quoteFor s] (quote s) = none :=
    between?_of_not_prefix (by simpa [quote, List.isPrefixOf] using htriple)
  have hfound : delimiters.findSome? (between? · (quote s)) = some (s.flatMap (escape (quoteFor s))) := by
    unfold quote at hfence ⊢
    rcases hmark with h | h <;> simp only [h, List.singleton_append] at hself hfence ⊢
    · simp [delimiters, fence, hfence, hself, between?_of_head_ne (show '\x22' ≠ '\x27' by decide)]
    · simp [delimiters, fence, hfence, hself, between?_of_head_ne (show '\x27' ≠ '\x22' by decide)]
  rw [quote, literal?_of_found hmark hfound, decode_flatMap_escape hmark]

theorem literal?_fence {s : List Char} (h : '\\' ∉ s) : literal? (fence ++ s ++ fence) = some s := by
  have hself := between?_self fence s
  have hfound : delimiters.findSome? (between? · (fence ++ (s ++ fence))) = some s := by
    simp [delimiters, hself]
  rw [List.append_assoc]
  exact (literal?_of_found (.inr rfl) hfound).trans (congrArg some (decodeFrom_plain h))

theorem literal?_docstring (s : List Char) : literal? (docstring s) = some s := by
  unfold docstring
  split
  · next h =>
    simp only [isPlain, Bool.and_eq_true, Bool.not_eq_true', List.contains_eq_mem, decide_eq_false_iff_not] at h
    exact literal?_fence h.1.1.1.2
  · exact literal?_quote s

end Quoted

/-! ## The end of a literal -/

namespace Quotation

/-- A string without letters before it. -/
def bare (mark : Char) (triple : Bool) : Quotation := ⟨false, false, false, mark, triple⟩

section
variable {mark : Char} {triple : Bool} {interpolation : List Char → Option (List Char)} {rest t u : List Char}

/-- From here, where nothing of a run has been read, a string is read up to `rest`. -/
def ClosesAt (q : Quotation) (interpolation : List Char → Option (List Char)) (rest t : List Char) : Prop :=
  ∀ fuel, t.length < fuel → q.close? interpolation fuel false t = some (false, rest)

/-- From here, in the middle of a run, the run ends where a string is read up to `rest`. -/
def RunsTo (q : Quotation) (interpolation : List Char → Option (List Char)) (rest t : List Char) : Prop :=
  ∃ u, u.length ≤ t.length ∧ (∀ fuel, t.length < fuel → q.run fuel true t = .more u) ∧
    q.ClosesAt interpolation rest u

theorem afterBraces?_bare (cs : List Char) : (bare mark triple).afterBraces? cs = none := by
  unfold afterBraces?
  split <;> simp [bare]

theorem closesAt_of_closed (h : ∀ fuel, t.length < fuel → (bare mark triple).run fuel false t = .closed rest) :
    (bare mark triple).ClosesAt interpolation rest t := by
  intro fuel hfuel
  cases fuel with
  | zero => omega
  | succ fuel => simp [close?, afterBraces?_bare, h]

theorem closesAt_of_more (hlt : u.length < t.length)
    (h : ∀ fuel, t.length < fuel → (bare mark triple).run fuel false t = .more u)
    (hu : (bare mark triple).ClosesAt interpolation rest u) : (bare mark triple).ClosesAt interpolation rest t := by
  intro fuel hfuel
  cases fuel with
  | zero => omega
  | succ fuel => simp [close?, afterBraces?_bare, h, hu fuel (by omega)]

theorem run_plain {c : Char} (hslash : c ≠ '\\') (hmark : c ≠ mark) (hline : c ≠ '\n' ∨ triple) (fuel : Nat)
    (filled : Bool) (t : List Char) :
    (bare mark triple).run (fuel + 1) filled (c :: t) = (bare mark triple).run fuel true t := by
  have hbreak : (c = '\n' && filled && !triple) = false := by
    rcases hline with h | h <;> simp [h]
  simp [run, bare, hslash, hmark, hbreak]

/-- A plain character is part of a run. -/
theorem closesAt_plain {c : Char} (hslash : c ≠ '\\') (hmark : c ≠ mark) (hline : c ≠ '\n' ∨ triple)
    (h : (bare mark triple).RunsTo interpolation rest t) : (bare mark triple).ClosesAt interpolation rest (c :: t) := by
  obtain ⟨u, hu, hrun, hcloses⟩ := h
  refine closesAt_of_more (by simpa using Nat.lt_succ_of_le hu) (fun fuel hfuel => ?_) hcloses
  cases fuel with
  | zero => omega
  | succ fuel => rw [run_plain hslash hmark hline, hrun fuel (by simpa using hfuel)]

theorem runsTo_plain {c : Char} (hslash : c ≠ '\\') (hmark : c ≠ mark) (hline : c ≠ '\n' ∨ triple)
    (h : (bare mark triple).RunsTo interpolation rest t) : (bare mark triple).RunsTo interpolation rest (c :: t) := by
  obtain ⟨u, hu, hrun, hcloses⟩ := h
  refine ⟨u, Nat.le_succ_of_le hu, fun fuel hfuel => ?_, hcloses⟩
  cases fuel with
  | zero => omega
  | succ fuel => rw [run_plain hslash hmark hline, hrun fuel (by simpa using hfuel)]

/-- A run ends before a backslash, and an escape is read behind it. -/
theorem closesAt_escape {e : List Char} (hlength : escapeLength? (e ++ t) = some e.length)
    (h : (bare mark triple).ClosesAt interpolation rest t) :
    (bare mark triple).ClosesAt interpolation rest ('\\' :: (e ++ t)) := by
  intro fuel hfuel
  have hbroken : ∀ n, (bare mark triple).run (n + 1) false ('\\' :: (e ++ t)) = .broken := by
    simp [run, bare]
  cases fuel with
  | zero => omega
  | succ fuel =>
    simp only [List.length_cons, List.length_append] at hfuel
    simp [close?, afterBraces?_bare, hbroken, hlength, h fuel (by omega)]

theorem runsTo_escape (h : (bare mark triple).ClosesAt interpolation rest ('\\' :: t)) :
    (bare mark triple).RunsTo interpolation rest ('\\' :: t) := by
  refine ⟨_, Nat.le_refl _, fun fuel hfuel => ?_, h⟩
  cases fuel with
  | zero => omega
  | succ fuel => simp [run, bare]

end

/-! ### One mark -/

section
variable {mark : Char} {interpolation : List Char → Option (List Char)} {rest t : List Char}

theorem closesAt_mark (hmark : mark ≠ '\\') : (bare mark false).ClosesAt interpolation rest (mark :: rest) := by
  refine closesAt_of_closed fun fuel hfuel => ?_
  cases fuel with
  | zero => omega
  | succ fuel => simp [run, bare, hmark]

theorem runsTo_mark (hmark : mark ≠ '\\') : (bare mark false).RunsTo interpolation rest (mark :: rest) := by
  refine ⟨_, Nat.le_refl _, fun fuel hfuel => ?_, closesAt_mark hmark⟩
  cases fuel with
  | zero => omega
  | succ fuel => simp [run, bare, hmark]

theorem escapeLength?_code {c : Char} (h : Quoted.isControl c) (t : List Char) :
    escapeLength? ('x' :: Quoted.hexDigit (c.toNat / 16) :: Quoted.hexDigit (c.toNat % 16) :: t) = some 3 := by
  have hlt : c.toNat < 128 := by
    simp only [Quoted.isControl, Bool.or_eq_true, decide_eq_true_eq, beq_iff_eq] at h
    omega
  have hhigh := Quoted.isSome_digitValue?_hexDigit (n := c.toNat / 16) (by omega)
  have hlow := Quoted.isSome_digitValue?_hexDigit (n := c.toNat % 16) (by omega)
  simp [escapeLength?, hexRun, hhigh, hlow]

/-- An escaped character is passed over as a whole. -/
theorem reads_escaped {c : Char} {e : List Char} (hmark : mark = '\x27' ∨ mark = '\x22') (he : Quoted.Escaped mark c e)
    (h : (bare mark false).ClosesAt interpolation rest t ∧ (bare mark false).RunsTo interpolation rest t) :
    (bare mark false).ClosesAt interpolation rest (e ++ t) ∧ (bare mark false).RunsTo interpolation rest (e ++ t) := by
  cases he with
  | plain hslash hline hne =>
    exact ⟨closesAt_plain hslash hne (.inl hline) h.2, runsTo_plain hslash hne (.inl hline) h.2⟩
  | letter l _ hl =>
    have hlength : escapeLength? ([l] ++ t) = some 1 := by
      simp only [List.mem_cons, List.not_mem_nil, or_false] at hl
      rcases hmark with rfl | rfl <;> rcases hl with rfl | rfl | rfl | rfl | rfl <;>
        simp [escapeLength?, Number.isDigit]
    have hcloses := closesAt_escape hlength h.1
    exact ⟨hcloses, runsTo_escape hcloses⟩
  | code hc =>
    have hlength := escapeLength?_code hc t
    have hcloses := closesAt_escape
      (e := ['x', Quoted.hexDigit (c.toNat / 16), Quoted.hexDigit (c.toNat % 16)]) hlength h.1
    exact ⟨hcloses, runsTo_escape hcloses⟩

theorem reads_flatMap_escape (hmark : mark = '\x27' ∨ mark = '\x22') (s : List Char) :
    (bare mark false).ClosesAt interpolation rest (s.flatMap (Quoted.escape mark) ++ mark :: rest) ∧
      (bare mark false).RunsTo interpolation rest (s.flatMap (Quoted.escape mark) ++ mark :: rest) := by
  have hslash : mark ≠ '\\' := by rcases hmark with rfl | rfl <;> decide
  induction s with
  | nil => exact ⟨closesAt_mark hslash, runsTo_mark hslash⟩
  | cons c s ih =>
    rw [List.flatMap_cons, List.append_assoc]
    exact reads_escaped hmark (Quoted.escaped_escape hmark c) ih

end

/-! ### Three marks -/

section
variable {interpolation : List Char → Option (List Char)} {rest t : List Char}

/-- Whether a text has no escapes, does not end in a mark and has no three marks in a row. -/
def isFenceable (s : List Char) : Prop := Quoted.hasFence s = false ∧ '\\' ∉ s ∧ s.getLast? ≠ some '\x22'

theorem isFenceable_of_isPlain {s : List Char} (h : Quoted.isPlain s) : isFenceable s := by
  simp only [Quoted.isPlain, Bool.and_eq_true, Bool.not_eq_true', List.contains_eq_mem, decide_eq_false_iff_not,
    bne_iff_ne, ne_eq] at h
  exact ⟨h.1.1.1.1, h.1.1.1.2, h.1.2⟩

theorem isFenceable_of_cons {c : Char} {s : List Char} (h : isFenceable (c :: s)) : isFenceable s := by
  obtain ⟨hfence, hslash, hlast⟩ := h
  simp only [Quoted.hasFence, Bool.or_eq_false_iff] at hfence
  refine ⟨hfence.2, fun hmem => hslash (List.mem_cons_of_mem _ hmem), ?_⟩
  cases s with
  | nil => simp
  | cons d s => simpa [List.getLast?_cons_cons] using hlast

/-- A mark in the text is not the first of three. -/
theorem not_tripled_of_isFenceable {s : List Char} (h : isFenceable ('\x22' :: s)) (t : List Char) :
    ∃ d s', s = d :: s' ∧ ['\x22', '\x22'].isPrefixOf (s ++ t) = false := by
  obtain ⟨hfence, -, hlast⟩ := h
  simp only [Quoted.hasFence, Quoted.fence, Bool.or_eq_false_iff] at hfence
  cases s with
  | nil => simp at hlast
  | cons d s =>
    refine ⟨d, s, rfl, ?_⟩
    cases s with
    | nil =>
      have hd : '\x22' ≠ d := by
        rintro rfl
        simp at hlast
      simp [List.isPrefixOf, hd]
    | cons e s => simpa [List.isPrefixOf] using hfence.1

theorem run_inner {cs : List Char} (h : ['\x22', '\x22'].isPrefixOf cs = false) (fuel : Nat) (filled : Bool) :
    (bare '\x22' true).run (fuel + 1) filled ('\x22' :: cs) =
      .more (if cs.head? = some '\x22' then cs.drop 1 else cs) := by
  simp [run, bare, tripled, h]

/-- A mark in the text ends a run and is passed over, together with a second one. -/
theorem reads_inner {u : List Char} (h : ['\x22', '\x22'].isPrefixOf t = false)
    (hu : (if t.head? = some '\x22' then t.drop 1 else t) = u) (hcloses : (bare '\x22' true).ClosesAt interpolation rest u) :
    (bare '\x22' true).ClosesAt interpolation rest ('\x22' :: t) ∧
      (bare '\x22' true).RunsTo interpolation rest ('\x22' :: t) := by
  have hle : u.length ≤ t.length := by
    rw [← hu]
    split <;> simp
  have hrun : ∀ filled fuel, ('\x22' :: t).length < fuel → (bare '\x22' true).run fuel filled ('\x22' :: t) = .more u := by
    intro filled fuel hfuel
    cases fuel with
    | zero => omega
    | succ fuel => rw [run_inner h, hu]
  exact ⟨closesAt_of_more (by simpa using Nat.lt_succ_of_le hle) (hrun false) hcloses,
    u, Nat.le_succ_of_le hle, hrun true, hcloses⟩

theorem closesAt_fence : (bare '\x22' true).ClosesAt interpolation rest (Quoted.fence ++ rest) := by
  refine closesAt_of_closed fun fuel hfuel => ?_
  cases fuel with
  | zero => omega
  | succ fuel => simp [run, bare, tripled, Quoted.fence]

theorem runsTo_fence : (bare '\x22' true).RunsTo interpolation rest (Quoted.fence ++ rest) := by
  refine ⟨_, Nat.le_refl _, fun fuel hfuel => ?_, closesAt_fence⟩
  cases fuel with
  | zero => omega
  | succ fuel => simp [run, bare, tripled, Quoted.fence]

/-- The induction is on the text, with two characters at once where two marks stand together. -/
theorem reads_fenceable : (s : List Char) → isFenceable s →
    (bare '\x22' true).ClosesAt interpolation rest (s ++ (Quoted.fence ++ rest)) ∧
      (bare '\x22' true).RunsTo interpolation rest (s ++ (Quoted.fence ++ rest))
  | [], _ => ⟨closesAt_fence, runsTo_fence⟩
  | c :: s, h => by
    by_cases hc : c = '\x22'
    · subst hc
      obtain ⟨d, s', rfl, htriple⟩ := not_tripled_of_isFenceable h (Quoted.fence ++ rest)
      by_cases hd : d = '\x22'
      · subst hd
        exact reads_inner htriple (by simp) (reads_fenceable s' (isFenceable_of_cons (isFenceable_of_cons h))).1
      · exact reads_inner htriple (by simp [hd]) (reads_fenceable (d :: s') (isFenceable_of_cons h)).1
    · have hslash : c ≠ '\\' := fun he => h.2.1 (by simp [he])
      have ih := reads_fenceable s (isFenceable_of_cons h)
      exact ⟨closesAt_plain hslash hc (.inr rfl) ih.2, runsTo_plain hslash hc (.inr rfl) ih.2⟩

end

/-! ## A whole literal -/

section
variable {mark : Char} {rest t : List Char}

theorem open?_mark (hmark : mark = '\x27' ∨ mark = '\x22') (h : [mark, mark].isPrefixOf t = false) :
    open? (mark :: t) = some (bare mark false, t) := by
  rcases hmark with rfl | rfl <;> simp [open?, bare, Layout.isQuote, Layout.isQuotePrefix, h]

theorem open?_fence (t : List Char) : open? (Quoted.fence ++ t) = some (bare '\x22' true, t) := by
  simp [open?, bare, Quoted.fence, Layout.isQuote, Layout.isQuotePrefix]

variable (interpolation : List Char → Option (List Char)) (s : List Char)

/-- **A quoted text ends where it was written to end.** -/
theorem read?_quote (hrest : Layout.endsWord rest) :
    read? interpolation (Quoted.quote s ++ rest) = some (false, rest) := by
  have hmark := Quoted.quoteFor_eq s
  have hquote : rest.head? ≠ some (Quoted.quoteFor s) := by
    intro h
    cases rest with
    | nil => simp at h
    | cons d rest =>
      simp only [List.head?_cons, Option.some.injEq] at h
      simp only [Layout.endsWord, Layout.isQuote, Bool.and_eq_true, Bool.not_eq_true', Bool.or_eq_false_iff,
        beq_eq_false_iff_ne] at hrest
      rcases hmark with hm | hm
      · exact hrest.2.1.1 (h.trans hm)
      · exact hrest.2.1.2 (h.trans hm)
  have htext : Quoted.quote s ++ rest =
      Quoted.quoteFor s :: (s.flatMap (Quoted.escape (Quoted.quoteFor s)) ++ Quoted.quoteFor s :: rest) := by
    simp [Quoted.quote]
  rw [htext, read?, open?_mark hmark (Quoted.not_tripled hmark s hquote)]
  exact (reads_flatMap_escape hmark s).1 _ (Nat.lt_succ_self _)

/-- **A docstring ends where it was written to end.** -/
theorem read?_docstring (hrest : Layout.endsWord rest) :
    read? interpolation (Quoted.docstring s ++ rest) = some (false, rest) := by
  unfold Quoted.docstring
  split
  · next h =>
    rw [List.append_assoc, List.append_assoc, read?, open?_fence]
    exact (reads_fenceable s (isFenceable_of_isPlain h)).1 _ (Nat.lt_succ_self _)
  · exact read?_quote interpolation s hrest

end

/-- The text is a string without letters before it, and it means a text. -/
structure Spells (cs : List Char) (s : String) : Prop where
  opens : ∃ mark more, (mark = '\x27' ∨ mark = '\x22') ∧ cs = mark :: more
  closes : ∀ (interpolation : List Char → Option (List Char)) {rest : List Char}, Layout.endsWord rest →
    read? interpolation (cs ++ rest) = some (false, rest)
  literal : Quoted.literal? cs = some s.toList

theorem spells_quote (s : String) : Spells (Quoted.quote s.toList) s :=
  ⟨⟨_, _, Quoted.quoteFor_eq s.toList, rfl⟩, fun f => read?_quote f s.toList, Quoted.literal?_quote s.toList⟩

theorem spells_docstring (s : String) : Spells (Quoted.docstring s.toList) s := by
  refine ⟨?_, fun f => read?_docstring f s.toList, Quoted.literal?_docstring s.toList⟩
  unfold Quoted.docstring
  split
  · exact ⟨'\x22', _, .inr rfl, rfl⟩
  · exact ⟨_, _, Quoted.quoteFor_eq s.toList, rfl⟩

end Quotation
end PluginTools
