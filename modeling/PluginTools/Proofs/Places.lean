/-
What a place reads next, where the text at hand starts with a token, with a blank and a token, or with a
line break. `Leads` says of the text behind an operand that a place finds nothing there that it could read
on with, which is all that the readers of operands ask about it.
-/
import PluginTools.Proofs.Tokens

namespace PluginTools

open Layout

/-! ## Marks -/

namespace Layout

/-- A character that is a token, or starts one, and is no part of a word or a string. -/
def isMark (c : Char) : Bool :=
  !isSpace c && c != '#' && c != '\\' && !isQuotePrefix c && !isQuote c && !Word.isContinuing c

variable {c : Char}

theorem startsToken_mark (h : isMark c) (cs : List Char) : startsToken (c :: cs) := by
  simp only [isMark, Bool.and_eq_true, Bool.not_eq_true', bne_iff_ne, ne_eq] at h
  exact startsToken_cons_iff.2 ⟨h.1.1.1.1.1, h.1.1.1.1.2, h.1.1.1.2⟩

theorem startsString_mark (h : isMark c) (cs : List Char) : startsString (c :: cs) = false := by
  simp only [isMark, Bool.and_eq_true, Bool.not_eq_true'] at h
  simp [startsString, startsQuote, h.1.1.2, h.1.2]

theorem endsWord_mark (h : isMark c) (cs : List Char) : endsWord (c :: cs) := by
  simp only [isMark, Bool.and_eq_true, Bool.not_eq_true'] at h
  simp [endsWord, h.1.2, h.2]

theorem read?_mark (h : isMark c) (cs : List Char) : Word.read? (c :: cs) = none := by
  refine Word.read?_of_not_isOpening ?_ cs
  by_contra hopen
  simp only [isMark, Bool.and_eq_true, Bool.not_eq_true'] at h
  simp [Word.isContinuing_of_isOpening (by simpa using hopen)] at h

end Layout

namespace Place

variable {p : Place} {quote : Bool} {cs rest start : List Char} {c : Char}

theorem gap_of_startsToken (h : startsToken cs) (hquote : startsString cs → quote) :
    p.gap quote cs = ⟨[], .token cs⟩ :=
  read_of_startsToken h hquote

theorem gap_blank (h : startsToken cs) (hquote : startsString cs → quote) :
    p.gap quote (' ' :: cs) = ⟨[], .token cs⟩ := by
  have hm : ∀ comments, margin? comments (' ' :: cs) = some ⟨false, 1, none, cs⟩ := fun _ => by
    simp [margin?, Margin.read_token h]
  exact readFrom_of_margin hm (fun hended => by cases hended) (by simpa [isSpace] using dropWhile_isSpace_of_startsToken h) h hquote

/-- A string behind a blank is nothing to a place that reads no string there. -/
theorem gap_blank_string (h : startsToken cs) (hs : startsString cs) : p.gap false (' ' :: cs) = ⟨[], .stuck⟩ := by
  refine read_of_string (m := ⟨false, 1, none, cs⟩) (by simp [margin?, Margin.read_token h]) (by simp [boundary?])
    ?_ h hs
  simpa [isSpace] using dropWhile_isSpace_of_startsToken h

theorem gap_lineBreak {column : Nat} (hp : p.line) (h : LineBreak cs column start) :
    p.gap quote cs = ⟨[], .newline cs⟩ :=
  readFrom_of_boundary (h.margin _) (by simp [boundary?, hp])

theorem token?_of_startsToken (h : startsToken cs) : p.token? true cs = some ([], cs) := by
  simp [token?, gap_of_startsToken h]

theorem token?_blank (h : startsToken cs) : p.token? true (' ' :: cs) = some ([], cs) := by
  simp [token?, gap_blank h]

theorem token?_of_not_string (h : startsToken cs) (hs : startsString cs = false) :
    p.token? quote cs = some ([], cs) := by
  simp [token?, gap_of_startsToken h, hs]

theorem token?_blank_of_not_string (h : startsToken cs) (hs : startsString cs = false) :
    p.token? quote (' ' :: cs) = some ([], cs) := by
  simp [token?, gap_blank h, hs]

theorem token?_lineBreak {column : Nat} (hp : p.line) (h : LineBreak cs column start) :
    p.token? quote cs = none := by
  simp [token?, gap_lineBreak hp h]

theorem mark?_lineBreak {column : Nat} (hp : p.line) (h : LineBreak cs column start) (c : Char) :
    p.mark? c cs = none := by
  simp [mark?, token?_lineBreak hp h]

theorem after?_lineBreak {column : Nat} (hp : p.line) (h : LineBreak cs column start) (c : Char) :
    p.after? c cs = none := by
  simp [after?, mark?_lineBreak hp h]

theorem ended?_lineBreak {column : Nat} (h : LineBreak cs column start) : p.ended? cs = some cs := by
  have hgap : p.ending.gap false cs = ⟨[], .newline cs⟩ := gap_lineBreak rfl h
  simp [ended?, hgap]

/-- The next line goes on with a construct that has to go on, if it is at the column of the block. -/
theorem next?_lineBreak (hp : p.line = false) (h : LineBreak cs p.column start) (htoken : startsToken start)
    (hstring : startsString start = false) : p.next? cs = some start := by
  have hgap : p.gap false cs = ⟨[], .token start⟩ := h.read_token htoken hp (by simp [hstring])
  simp [next?, token?, hgap]

theorem token?_mark (h : isMark c) : p.token? quote (c :: cs) = some ([], c :: cs) :=
  token?_of_not_string (startsToken_mark h cs) (startsString_mark h cs)

theorem token?_blank_mark (h : isMark c) : p.token? quote (' ' :: c :: cs) = some ([], c :: cs) :=
  token?_blank_of_not_string (startsToken_mark h cs) (startsString_mark h cs)

theorem token?_word {w : List Char} (hw : Word.isWord w) (hrest : endsWord rest) :
    p.token? quote (w ++ rest) = some ([], w ++ rest) :=
  token?_of_not_string (startsToken_word hw rest) (startsString_word hw hrest)

theorem token?_blank_word {w : List Char} (hw : Word.isWord w) (hrest : endsWord rest) :
    p.token? quote (' ' :: (w ++ rest)) = some ([], w ++ rest) :=
  token?_blank_of_not_string (startsToken_word hw rest) (startsString_word hw hrest)

/-! ## Operands -/

theorem operand?_of_startsToken (h : startsToken cs) : p.operand? cs = some cs := by
  simp [operand?, token?_of_startsToken h]

theorem operand?_blank (h : startsToken cs) : p.operand? (' ' :: cs) = some cs := by
  simp [operand?, token?_blank h]

theorem next?_mark (h : isMark c) : p.next? (c :: cs) = some (c :: cs) := by
  simp [next?, token?_mark h]

theorem next?_blank_mark (h : isMark c) : p.next? (' ' :: c :: cs) = some (c :: cs) := by
  simp [next?, token?_blank_mark h]

theorem mark?_self (h : isMark c) : p.mark? c (c :: cs) = some ([], cs) := by
  simp [mark?, token?_mark h]

theorem mark?_other {d : Char} (h : isMark d) (hne : d ≠ c) : p.mark? c (d :: cs) = none := by
  simp [mark?, token?_mark h, hne]

theorem after?_self (h : isMark c) : p.after? c (c :: cs) = some cs := by
  simp [after?, mark?_self h]

theorem after?_other {d : Char} (h : isMark d) (hne : d ≠ c) : p.after? c (d :: cs) = none := by
  simp [after?, mark?_other h hne]

theorem next?_word {w : List Char} (hw : Word.isWord w) (hrest : endsWord rest) :
    p.next? (w ++ rest) = some (w ++ rest) := by
  simp [next?, token?_word hw hrest]

theorem next?_blank_word {w : List Char} (hw : Word.isWord w) (hrest : endsWord rest) :
    p.next? (' ' :: (w ++ rest)) = some (w ++ rest) := by
  simp [next?, token?_blank_word hw hrest]

theorem name?_word {w : List Char} (hw : Word.isWord w) (hrest : endsWord rest) :
    p.name? (w ++ rest) = some (String.ofList w, rest) := by
  simp [name?, next?_word hw hrest, Word.read?_append hw hrest]

theorem name?_blank_word {w : List Char} (hw : Word.isWord w) (hrest : endsWord rest) :
    p.name? (' ' :: (w ++ rest)) = some (String.ofList w, rest) := by
  simp [name?, next?_blank_word hw hrest, Word.read?_append hw hrest]

/-! ## Behind an operand -/

/-- Behind an operand stands nothing that the place reads, or a token of the given sort. -/
def Leads (p : Place) (ok : List Char → Bool) (rest : List Char) : Prop :=
  ∀ quote, p.token? quote rest = none ∨ ∃ t, p.token? quote rest = some ([], t) ∧ ok t

variable {ok : List Char → Bool}

theorem Leads.mark (h : isMark c) (hok : ok (c :: cs)) : p.Leads ok (c :: cs) :=
  fun _ => .inr ⟨_, token?_mark h, hok⟩

theorem Leads.blank_mark (h : isMark c) (hok : ok (c :: cs)) : p.Leads ok (' ' :: c :: cs) :=
  fun _ => .inr ⟨_, token?_blank_mark h, hok⟩

theorem Leads.lineBreak {column : Nat} (hp : p.line) (h : LineBreak cs column start) : p.Leads ok cs :=
  fun _ => .inl (token?_lineBreak hp h)

theorem Leads.mono {ok' : List Char → Bool} (h : p.Leads ok rest) (himp : ∀ t, ok t → ok' t) : p.Leads ok' rest :=
  fun quote => (h quote).imp id fun ⟨t, ht, hok⟩ => ⟨t, ht, himp t hok⟩

theorem Leads.next? (h : p.Leads ok rest) : p.next? rest = none ∨ ∃ t, p.next? rest = some t ∧ ok t := by
  rcases h false with h | ⟨t, h, hok⟩
  · exact .inl (by simp [Place.next?, h])
  · exact .inr ⟨t, by simp [Place.next?, h], hok⟩

theorem Leads.mark? (h : p.Leads ok rest) (hok : ∀ t, ok (c :: t) = false) : p.mark? c rest = none := by
  rcases h false with h | ⟨t, h, ht⟩
  · simp [Place.mark?, h]
  · cases t with
    | nil => simp [Place.mark?, h]
    | cons d t =>
      have hne : d ≠ c := by
        rintro rfl
        simp [hok] at ht
      simp [Place.mark?, h, hne]

theorem Leads.after? (h : p.Leads ok rest) (hok : ∀ t, ok (c :: t) = false) : p.after? c rest = none := by
  simp [Place.after?, h.mark? hok]

theorem Leads.endsWord (h : p.Leads ok rest) (hok : ∀ t, ok t → endsWord t) : endsWord rest := by
  cases rest with
  | nil => rfl
  | cons c cs =>
    by_cases htoken : startsToken (c :: cs)
    · rcases h true with h | ⟨t, h, ht⟩
      · simp [token?_of_startsToken htoken] at h
      · simp only [token?_of_startsToken htoken, Option.some.injEq, Prod.mk.injEq, true_and] at h
        exact hok _ (h ▸ ht)
    · exact endsWord_of_not_startsToken (by simpa using htoken)

/-- Whether a token ends an expression: a comma, a closing bracket, or a colon or an equals sign that is no
part of a longer mark. -/
def closes : List Char → Bool
  | c :: cs => [',', ')', ']'].contains c || [':', '='].contains c && cs.head? != some '='
  | [] => false

end Place
end PluginTools
