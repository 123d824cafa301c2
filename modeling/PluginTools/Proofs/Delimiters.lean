/-
A written literal is a whole one. The delimiter that `quote` or `docstring` puts around a text comes back, outside of
escapes, only where the literal ends; so nothing of the text closes it, and it stands for the text and nothing else.
`quote_and_docstring_lossless` says so of every text.
-/
import PluginTools.Proofs.Quoting

namespace PluginTools.Quoted

/-! ## Outside of escapes -/

/-- The places of a text that are outside of escapes, each by what follows it: a backslash takes the character behind
it along. -/
inductive Outside : List Char → List Char → Prop
  | here (cs : List Char) : Outside cs cs
  | plain {c : Char} {cs rest : List Char} : c ≠ '\\' → Outside cs rest → Outside (c :: cs) rest
  | escape {c : Char} {cs rest : List Char} : Outside cs rest → Outside ('\\' :: c :: cs) rest

/-- Outside of escapes the delimiter comes at the very end of the text and nowhere before. -/
def ClosedBy (delimiter cs : List Char) : Prop :=
  Outside cs delimiter ∧ ∀ rest, Outside cs rest → delimiter <+: rest → rest = delimiter

theorem Outside.of_cons {c : Char} {cs rest : List Char} (hslash : c ≠ '\\') (h : Outside (c :: cs) rest) :
    rest = c :: cs ∨ Outside cs rest := by
  cases h with
  | here => exact .inl rfl
  | plain _ h => exact .inr h
  | escape => exact absurd rfl hslash

theorem Outside.of_escape {c : Char} {cs rest : List Char} (h : Outside ('\\' :: c :: cs) rest) :
    rest = '\\' :: c :: cs ∨ Outside cs rest := by
  cases h with
  | here => exact .inl rfl
  | plain hslash => exact absurd rfl hslash
  | escape h => exact .inr h

theorem Outside.suffix {cs rest : List Char} (h : Outside cs rest) : rest <:+ cs := by
  induction h with
  | here cs => exact List.suffix_refl cs
  | plain _ _ ih => exact ih.trans (List.suffix_cons _ _)
  | escape _ ih => exact ih.trans ((List.suffix_cons _ _).trans (List.suffix_cons _ _))

/-! ## One mark -/

section

variable {mark c : Char} {e t rest : List Char}

theorem hexDigit_ne {n : Nat} (h : n < 16) : hexDigit n ≠ '\x27' ∧ hexDigit n ≠ '\x22' ∧ hexDigit n ≠ '\\' := by
  have hall : ∀ n < 16, hexDigit n ≠ '\x27' ∧ hexDigit n ≠ '\x22' ∧ hexDigit n ≠ '\\' := by decide
  exact hall n h

theorem hexDigits_lt (hc : isControl c) : c.toNat / 16 < 16 ∧ c.toNat % 16 < 16 := by
  simp only [isControl, Bool.or_eq_true, decide_eq_true_eq, beq_iff_eq] at hc
  omega

/-- The text of a character leads from one place outside of escapes to the next. -/
theorem Escaped.outside (he : Escaped mark c e) (h : Outside t rest) : Outside (e ++ t) rest := by
  cases he with
  | plain hslash => exact .plain hslash h
  | letter => exact .escape h
  | code hc =>
    obtain ⟨hhigh, hlow⟩ := hexDigits_lt hc
    exact .escape (.plain (hexDigit_ne hhigh).2.2 (.plain (hexDigit_ne hlow).2.2 h))

/-- In the text of a character there is no mark outside of escapes. -/
theorem Escaped.no_mark (hmark : mark = '\x27' ∨ mark = '\x22') (he : Escaped mark c e) (h : Outside (e ++ t) rest)
    (hstart : [mark] <+: rest) : Outside t rest := by
  have hhead : rest.head? = some mark := by
    obtain ⟨more, rfl⟩ := hstart
    rfl
  have hslash : mark ≠ '\\' := by rcases hmark with rfl | rfl <;> decide
  cases he with
  | plain hplain _ hne =>
    rcases h.of_cons hplain with rfl | h
    · exact absurd (Option.some.inj hhead) hne
    · exact h
  | letter =>
    rcases h.of_escape with rfl | h
    · exact absurd (Option.some.inj hhead).symm hslash
    · exact h
  | code hc =>
    obtain ⟨hhigh, hlow⟩ := hexDigits_lt hc
    have hdigit : ∀ n < 16, hexDigit n ≠ mark := fun n hn => by
      rcases hmark with rfl | rfl
      · exact (hexDigit_ne hn).1
      · exact (hexDigit_ne hn).2.1
    rcases h.of_escape with rfl | h
    · exact absurd (Option.some.inj hhead).symm hslash
    · rcases h.of_cons (hexDigit_ne hhigh).2.2 with rfl | h
      · exact absurd (Option.some.inj hhead) (hdigit _ hhigh)
      · rcases h.of_cons (hexDigit_ne hlow).2.2 with rfl | h
        · exact absurd (Option.some.inj hhead) (hdigit _ hlow)
        · exact h

theorem closedBy_mark (hmark : mark = '\x27' ∨ mark = '\x22') (s : List Char) :
    ClosedBy [mark] (s.flatMap (escape mark) ++ [mark]) := by
  induction s with
  | nil =>
    refine ⟨.here _, fun rest h hstart => ?_⟩
    exact (List.IsPrefix.eq_of_length_le hstart (by simpa using h.suffix.length_le)).symm
  | cons c s ih =>
    have hescaped := escaped_escape hmark c
    rw [List.flatMap_cons, List.append_assoc]
    exact ⟨hescaped.outside ih.1, fun rest h hstart => ih.2 rest (hescaped.no_mark hmark h hstart) hstart⟩

end

/-! ## Three marks -/

theorem outside_of_plain {s t : List Char} (h : '\\' ∉ s) : Outside (s ++ t) t := by
  induction s with
  | nil => exact .here t
  | cons c s ih =>
    obtain ⟨hc, hs⟩ := not_or.1 (mt List.mem_cons.2 h)
    exact .plain (Ne.symm hc) (ih hs)

/-- A fence before the end would be one in the text, or reach into the text from its end. -/
theorem not_fence_of_isFenceable {c : Char} {s : List Char} (h : Quotation.isFenceable (c :: s)) :
    ¬fence <+: c :: (s ++ fence) := by
  intro hstart
  have hc : c = '\x22' := (List.cons_prefix_cons.1 hstart).1.symm
  subst hc
  obtain ⟨d, s', rfl, htripled⟩ := Quotation.not_tripled_of_isFenceable h fence
  exact Bool.false_ne_true (htripled.symm.trans (List.isPrefixOf_iff_prefix.2 (List.cons_prefix_cons.1 hstart).2))

theorem closedBy_fence {s : List Char} (h : Quotation.isFenceable s) : ClosedBy fence (s ++ fence) := by
  refine ⟨outside_of_plain h.2.1, fun rest houtside hstart => ?_⟩
  have hsuffix := houtside.suffix
  clear houtside
  induction s with
  | nil => exact (List.IsPrefix.eq_of_length_le hstart hsuffix.length_le).symm
  | cons c s ih =>
    rcases List.suffix_cons_iff.1 hsuffix with rfl | hsuffix
    · exact absurd hstart (not_fence_of_isFenceable h)
    · exact ih (Quotation.isFenceable_of_cons h) hsuffix

/-! ## Whole literals -/

/-- The text is one whole literal, and it stands for `s`. -/
structure IsLiteral (cs : List Char) (s : String) : Prop where
  /-- Its text reads back. -/
  text : literal? cs = some s.toList
  /-- Behind the delimiter it starts with, the delimiter comes at its end and nowhere before. -/
  closed : ∃ delimiter ∈ delimiters, ∃ cs', cs = delimiter ++ cs' ∧ ClosedBy delimiter cs'
  /-- A reader of the source takes all of it for one string, with nothing interpolated. -/
  whole : ∀ interpolation, Quotation.read? interpolation cs = some (false, [])

theorem isLiteral_quote (s : String) : IsLiteral (quote s.toList) s := by
  have hmark := quoteFor_eq s.toList
  have hend : Layout.endsWord [] := rfl
  refine ⟨literal?_quote s.toList, ⟨[quoteFor s.toList], ?_, _, rfl, closedBy_mark hmark s.toList⟩, fun f => ?_⟩
  · rcases hmark with h | h <;> rw [h] <;> simp [delimiters]
  · simpa using Quotation.read?_quote f s.toList hend

/-- **Quoting loses nothing**: both literals of a text, whatever it holds, are whole and stand for the text. -/
theorem quote_and_docstring_lossless (s : String) : IsLiteral (quote s.toList) s ∧ IsLiteral (docstring s.toList) s := by
  refine ⟨isLiteral_quote s, ?_⟩
  cases hplain : isPlain s.toList with
  | true =>
    have hend : Layout.endsWord [] := rfl
    have hfenced : docstring s.toList = fence ++ (s.toList ++ fence) := by
      rw [docstring, if_pos hplain, List.append_assoc]
    refine ⟨literal?_docstring s.toList, ⟨fence, .head _, _, hfenced, ?_⟩, fun f => ?_⟩
    · exact closedBy_fence (Quotation.isFenceable_of_isPlain hplain)
    · simpa using Quotation.read?_docstring f s.toList hend
  | false =>
    rw [docstring, hplain]
    exact isLiteral_quote s

end PluginTools.Quoted
