/-
Words and the blank space between tokens, in a text whose parts are known. A whole word is read up to its
end; one blank or none before a token leads to that token, whatever place asks; and a line break leads to
what stands on the next line, at its column.
-/
import Mathlib.Data.List.TakeDrop
import PluginTools.Source.Place

namespace PluginTools

/-- The text up to what is left of it. -/
theorem between_append (text t : List Char) : between (text ++ t) t = String.ofList text := by
  simp [between]

/-! ## Words -/

/-- Whether a text is one whole word. -/
def Word.isWord : List Char → Bool
  | [] => false
  | c :: cs => isOpening c && cs.all isContinuing

/-- Whether a word ends before the text and is no prefix of a string there. -/
def Layout.endsWord : List Char → Bool
  | [] => true
  | c :: _ => !Word.isContinuing c && !isQuote c

namespace Word

open Layout (endsWord)

theorem isContinuing_of_isOpening {c : Char} (h : isOpening c) : isContinuing c := by
  unfold isOpening at h
  unfold isContinuing
  split <;> simp_all

theorem isContinuing_of_isWord {w : List Char} (hw : isWord w) : ∀ c ∈ w, isContinuing c := by
  cases w with
  | nil => simp
  | cons c cs =>
    simp only [isWord, Bool.and_eq_true, List.all_eq_true] at hw
    exact List.forall_mem_cons.2 ⟨isContinuing_of_isOpening hw.1, hw.2⟩

variable {w rest : List Char}

theorem read?_append (hw : isWord w) (hrest : endsWord rest) : read? (w ++ rest) = some (w, rest) := by
  cases w with
  | nil => cases hw
  | cons c cs =>
    simp only [isWord, Bool.and_eq_true, List.all_eq_true] at hw
    obtain ⟨hc, hcs⟩ := hw
    have hspan : (cs ++ rest).span isContinuing = (cs, rest) := by
      rw [List.span_eq_takeWhile_dropWhile, List.takeWhile_append_of_pos hcs, List.dropWhile_append_of_pos hcs]
      cases rest with
      | nil => simp
      | cons d ds =>
        simp only [endsWord, Bool.and_eq_true, Bool.not_eq_true'] at hrest
        simp [hrest.1]
    simp only [List.cons_append, read?, hc, ↓reduceIte, hspan]

theorem head?_append_ne {c : Char} (hw : isWord w) (hc : isOpening c = false) (rest : List Char) :
    (w ++ rest).head? ≠ some c := by
  cases w with
  | nil => cases hw
  | cons d w =>
    simp only [isWord, Bool.and_eq_true] at hw
    rintro he
    simp only [List.cons_append, List.head?_cons, Option.some.injEq] at he
    simp [← he, hw.1] at hc

theorem read?_of_not_isOpening {c : Char} (h : isOpening c = false) (cs : List Char) : read? (c :: cs) = none := by
  simp [read?, h]

theorem after?_append {word : String} (hw : isWord w) (hrest : endsWord rest) :
    after? word (w ++ rest) = if w = word.toList then some rest else none := by
  simp [after?, read?_append hw hrest]

theorem after?_of_read?_eq_none {cs : List Char} (h : read? cs = none) (word : String) : after? word cs = none := by
  simp [after?, h]

theorem opens_of_after?_eq_none {word : String} {cs : List Char} (h : after? word cs = none) :
    opens word cs = false := by
  simp [opens, h]

end Word

/-! ## Blank space -/

namespace Layout

/-- Whether a token starts the text, with no blank space, comment or join before it. -/
def startsToken : List Char → Bool
  | [] => false
  | c :: _ => !isSpace c && c != '#' && c != '\\'

theorem startsToken_cons_iff {c : Char} {cs : List Char} :
    startsToken (c :: cs) ↔ isSpace c = false ∧ c ≠ '#' ∧ c ≠ '\\' := by
  simp [startsToken, and_assoc]

theorem isSpace_iff {c : Char} :
    isSpace c ↔ c ∈ [' ', '\n', '\r', '\t', '\x0b', '\x0c', '\ufeff', '\u2060', '\u200b'] := by
  simp [isSpace, or_assoc]

set_option maxRecDepth 2000 in
theorem not_isContinuing_of_isSpace {c : Char} (h : isSpace c) : Word.isContinuing c = false := by
  have hall : [' ', '\n', '\r', '\t', '\x0b', '\x0c', '\ufeff', '\u2060', '\u200b'].all
      (!Word.isContinuing ·) := by decide
  simpa using List.all_eq_true.1 hall c (isSpace_iff.1 h)

theorem startsToken_of_isOpening {c : Char} (h : Word.isOpening c) (cs : List Char) : startsToken (c :: cs) := by
  have hcontinuing := Word.isContinuing_of_isOpening h
  refine startsToken_cons_iff.2 ⟨?_, ?_, ?_⟩
  · by_contra hspace
    simp [not_isContinuing_of_isSpace (by simpa using hspace)] at hcontinuing
  · rintro rfl
    exact absurd h (by decide)
  · rintro rfl
    exact absurd h (by decide)

/-- Only a token can go on with a word or open a string. -/
theorem endsWord_of_not_startsToken {cs : List Char} (h : startsToken cs = false) : endsWord cs := by
  cases cs with
  | nil => rfl
  | cons c cs =>
    by_cases hspace : isSpace c
    · have hquote : isQuote c = false := by
        have hall : [' ', '\n', '\r', '\t', '\x0b', '\x0c', '\ufeff', '\u2060', '\u200b'].all
            (!isQuote ·) := by decide
        simpa using List.all_eq_true.1 hall c (isSpace_iff.1 hspace)
      simp [endsWord, not_isContinuing_of_isSpace hspace, hquote]
    · have hc : c = '#' ∨ c = '\\' := by
        by_contra hc
        simp [startsToken, hspace, not_or.1 hc] at h
      rcases hc with rfl | rfl <;> rfl

theorem startsToken_word {w : List Char} (hw : Word.isWord w) (rest : List Char) : startsToken (w ++ rest) := by
  cases w with
  | nil => cases hw
  | cons c cs =>
    simp only [Word.isWord, Bool.and_eq_true] at hw
    exact startsToken_of_isOpening hw.1 _

theorem not_isQuote_of_isContinuing {c : Char} (h : Word.isContinuing c) : isQuote c = false := by
  simp only [isQuote, Bool.or_eq_false_iff, beq_eq_false_iff_ne]
  refine ⟨⟨?_, ?_⟩, ?_⟩ <;> rintro rfl <;> exact absurd h (by decide)

theorem isContinuing_of_isQuotePrefix {c : Char} (h : isQuotePrefix c) : Word.isContinuing c := by
  simp only [isQuotePrefix, Bool.or_eq_true, beq_iff_eq] at h
  rcases h with ((((((rfl | rfl) | rfl) | rfl) | rfl) | rfl) | rfl) | rfl <;> decide

/-- A whole word is no opening of a string, even if it is made of the letters of one. -/
theorem startsString_word {w rest : List Char} (hw : Word.isWord w) (hrest : endsWord rest) :
    startsString (w ++ rest) = false := by
  have hword := Word.isContinuing_of_isWord hw
  clear hw
  induction w with
  | nil =>
    cases rest with
    | nil => rfl
    | cons c cs =>
      simp only [endsWord, Bool.and_eq_true, Bool.not_eq_true'] at hrest
      have hprefix : isQuotePrefix c = false := by
        by_contra h
        simp [isContinuing_of_isQuotePrefix (by simpa using h)] at hrest
      simp [startsString, startsQuote, hprefix, hrest.2]
  | cons c cs ih =>
    obtain ⟨hc, hcs⟩ := List.forall_mem_cons.1 hword
    by_cases hprefix : isQuotePrefix c
    · simpa [startsString, hprefix] using ih hcs
    · simp [startsString, hprefix, startsQuote, not_isQuote_of_isContinuing hc]

theorem dropWhile_isSpace_of_startsToken {cs : List Char} (h : startsToken cs) : cs.dropWhile isSpace = cs := by
  cases cs with
  | nil => rfl
  | cons c cs => simp [(startsToken_cons_iff.1 h).1]

theorem join?_of_startsToken {cs : List Char} (h : startsToken cs) : join? cs = none := by
  cases cs with
  | nil => cases h
  | cons c cs =>
    have hc := (startsToken_cons_iff.1 h).2.2
    unfold join?
    split <;> simp_all

/-! ### Margins -/

section
variable {comments : Bool} {m : Margin}

@[simp] theorem Margin.read_blank (cs : List Char) : Margin.read comments false m (' ' :: cs) =
    Margin.read comments false { m with column := m.column + 1 } cs := by
  simp [Margin.read]

@[simp] theorem Margin.read_newline (cs : List Char) : Margin.read comments false m ('\n' :: cs) =
    Margin.read comments false { m with ended := true, column := 0 } cs := by
  simp [Margin.read]

theorem Margin.read_token {cs : List Char} (h : startsToken cs) :
    Margin.read comments false m cs = some { m with rest := cs } := by
  cases cs with
  | nil => cases h
  | cons c cs =>
    obtain ⟨hspace, hcomment, hjoin⟩ := startsToken_cons_iff.1 h
    simp only [isSpace, Bool.or_eq_false_iff, beq_eq_false_iff_ne] at hspace
    simp_all [Margin.read]

end

/-- A text that ends its line, with the next token or the end of the text at a column of a further line. -/
structure LineBreak (cs : List Char) (column : Nat) (start : List Char) : Prop where
  margin : ∀ comments, margin? comments cs = some ⟨true, column, none, start⟩
  skips : cs.dropWhile isSpace = start
  head : cs.head? = some '\n'
  starts : start = [] ∨ startsToken start

/-- One empty line and a token at the left edge. -/
theorem LineBreak.outer {start : List Char} (h : start = [] ∨ startsToken start) :
    LineBreak ('\n' :: '\n' :: start) 0 start := by
  refine ⟨fun comments => ?_, ?_, rfl, h⟩
  · rcases h with rfl | h
    · simp [margin?, Margin.read]
    · simp [margin?, Margin.read_token h]
  · have hskip : start.dropWhile isSpace = start := by
      rcases h with rfl | h
      · rfl
      · exact dropWhile_isSpace_of_startsToken h
    simpa [isSpace] using hskip

/-- A token at the left edge of the next line. -/
theorem LineBreak.next {start : List Char} (h : startsToken start) : LineBreak ('\n' :: start) 0 start :=
  ⟨fun comments => by simp [margin?, Margin.read_token h],
    by simpa [isSpace] using dropWhile_isSpace_of_startsToken h, rfl, .inr h⟩

/-- A token at the first column of a block. -/
theorem LineBreak.inner {start : List Char} (h : startsToken start) :
    LineBreak ('\n' :: ' ' :: ' ' :: ' ' :: ' ' :: start) 4 start :=
  ⟨fun comments => by simp [margin?, Margin.read_token h],
    by simpa [isSpace] using dropWhile_isSpace_of_startsToken h, rfl, .inr h⟩

/-! ### Gaps -/

section
variable {a : Allowed} {column fuel : Nat} {quiet : Bool} {cs start : List Char} {m : Margin}

/-- Blank space that means something leads there. -/
theorem readFrom_of_boundary {mark : Mark} (hm : margin? (a.indent || a.dedent || a.newline || a.clause) cs = some m)
    (hmark : boundary? a column quiet cs m = some mark) : readFrom a column quiet (fuel + 1) cs = ⟨[], mark⟩ := by
  simp [readFrom, hm, hmark]

theorem head?_ne_of_startsToken (h : start = [] ∨ startsToken start) : start.head? ≠ some '#' := by
  rcases h with rfl | h
  · simp
  · cases start with
    | nil => simp
    | cons c cs => simpa using (startsToken_cons_iff.1 h).2.1

/-- Other blank space leads to the token behind it. -/
theorem readFrom_of_token (hm : margin? (a.indent || a.dedent || a.newline || a.clause) cs = some m)
    (hmark : boundary? a column quiet cs m = none) (hstart : cs.dropWhile isSpace = start)
    (htoken : start = [] ∨ startsToken start) (hstring : startsString start = false) :
    readFrom a column quiet (fuel + 1) cs = ⟨[], .token start⟩ := by
  have hjoin : join? start = none := by
    rcases htoken with rfl | htoken
    · rfl
    · exact join?_of_startsToken htoken
  simp [readFrom, hm, hmark, hstart, hjoin, head?_ne_of_startsToken htoken, hstring]

/-- A string is no token unless it is read as one. -/
theorem read_of_string (hm : margin? (a.indent || a.dedent || a.newline || a.clause) cs = some m)
    (hmark : boundary? a column quiet cs m = none) (hstart : cs.dropWhile isSpace = start)
    (htoken : startsToken start) (hstring : startsString start) : read a column quiet cs = ⟨[], .stuck⟩ := by
  simp [read, readFrom, hm, hmark, hstart, join?_of_startsToken htoken, head?_ne_of_startsToken (.inr htoken),
    hstring]

/-- A comment is skipped up to the end of its line. -/
theorem readFrom_of_comment {text rest : List Char}
    (hm : margin? (a.indent || a.dedent || a.newline || a.clause) cs = some m)
    (hmark : boundary? a column quiet cs m = none) (hstart : cs.dropWhile isSpace = '#' :: (text ++ '\n' :: rest))
    (htext : '\n' ∉ text) : readFrom a column quiet (fuel + 1) cs = readFrom a column quiet fuel ('\n' :: rest) := by
  have hline : ∀ c ∈ text, (c != '\n') = true := fun c hc => by
    simpa using fun he : c = '\n' => htext (he ▸ hc)
  have hrest : ('#' :: (text ++ '\n' :: rest)).dropWhile (· != '\n') = '\n' :: rest := by
    rw [List.dropWhile_cons_of_pos (by decide), List.dropWhile_append_of_pos hline]
    rfl
  have hjoin : join? ('#' :: (text ++ '\n' :: rest)) = none := rfl
  rw [readFrom]
  simp only [hm, Option.bind_some, hmark, hstart, hjoin, hrest]
  rfl

/-- Blank space that ends no line, or leads to the column of the block where no statement may end, leads to the
token behind it. -/
theorem readFrom_of_margin {ended : Bool} {inner : Nat} (hm : ∀ comments, margin? comments cs = some ⟨ended, inner, none, start⟩)
    (hended : ended → a.newline = false ∧ inner = column) (hskip : cs.dropWhile isSpace = start)
    (htoken : startsToken start) (hquote : startsString start → a.quote) :
    readFrom a column quiet (fuel + 1) cs = ⟨[], .token start⟩ := by
  by_cases hs : startsString start
  · refine readFrom_of_boundary (hm _) ?_
    cases ended with
    | false => simp [boundary?, hquote hs, hs]
    | true => simp [boundary?, hended rfl, hquote hs, hs]
  · refine readFrom_of_token (hm _) ?_ hskip (.inr htoken) (by simpa using hs)
    cases ended with
    | false => simp [boundary?, hs]
    | true => simp [boundary?, hended rfl, hs]

/-- A token at the column of the block, where no statement may end before it. -/
theorem LineBreak.read_token (h : LineBreak cs column start) (hstart : startsToken start) (hnewline : a.newline = false)
    (hquote : startsString start → a.quote) : readFrom a column quiet (fuel + 1) cs = ⟨[], .token start⟩ :=
  readFrom_of_margin h.margin (fun _ => ⟨hnewline, rfl⟩) h.skips hstart hquote

theorem read_of_startsToken (hstart : startsToken cs) (hquote : startsString cs → a.quote) :
    read a column quiet cs = ⟨[], .token cs⟩ := by
  have hm : ∀ comments, margin? comments cs = some ⟨false, 0, none, cs⟩ := fun _ => by
    simp [margin?, Margin.read_token hstart]
  exact readFrom_of_margin hm (fun h => nomatch h) (dropWhile_isSpace_of_startsToken hstart) hstart hquote

end

end Layout

end PluginTools
